/-!
# Literals

Comments, CDATA sections and quoted values are literals: a `>` in one of them does not
end a tag.  Where literals are not guarded, a `<` right after the `>` ends the literal
and its tag.
-/

namespace PrettyMarkup

namespace Markup

/-- A double or a single quote. -/
def isQuote (c : Char) : Bool := c == '\x22' || c == '\x27'

/-! ## Openers and closers -/

/-- What opens a comment, after the `<`. -/
def commentBodyOpen : List Char := "!--".toList

def commentOpen : List Char := '<' :: commentBodyOpen

def commentClose : List Char := "-->".toList

/-- What opens a CDATA section, after the `<`. -/
def cdataBodyOpen : List Char := "![CDATA[".toList

def cdataOpen : List Char := '<' :: cdataBodyOpen

def cdataClose : List Char := "]]>".toList

/-- What the characters in front of the `>` of a CDATA section have to end with. -/
def cdataMarks : List Char := "]]".toList

/-! ## Split literals -/

/-- Whether a `<` comes next. -/
def meetsTag (text : List Char) : Bool := text.head? == some '<'

/-- Whether a `>` inside a literal ends it and its tag, by what follows the `>`. -/
def splitsLiteral (guard : Bool) (after : List Char) : Bool := !guard && meetsTag after

@[simp] theorem splitsLiteral_guarded (after : List Char) : splitsLiteral true after = false := by
  simp [splitsLiteral]

/-- Whether a text holds `><`. -/
def holdsSplit : List Char → Bool
  | '>' :: rest => meetsTag rest || holdsSplit rest
  | _ :: rest => holdsSplit rest
  | [] => false

end Markup

end PrettyMarkup
