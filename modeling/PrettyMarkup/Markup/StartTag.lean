import PrettyMarkup.Markup.Lexeme

/-!
# Start tags

A start tag that is well formed: a name, and attributes with quoted values.  It is
printed as a text, and cut into lexemes by its parts.
-/

namespace PrettyMarkup

namespace Markup

/-- An attribute with a quoted value. -/
structure Attribute where
  name : List Char
  value : List Char
  quote : Char
  deriving DecidableEq, Repr

/-- Whether a character may stand in a name. -/
def isNameChar (c : Char) : Bool :=
  !Text.isBlank c && !isQuote c && c != '<' && c != '>' && c != '/' && c != '='

/-- A name has characters, all of which may stand in one. -/
def IsName (name : List Char) : Prop := name ≠ [] ∧ ∀ c ∈ name, isNameChar c = true

/-- A gap has characters, all of them blank. -/
def IsGap (gap : List Char) : Prop := gap ≠ [] ∧ ∀ c ∈ gap, Text.isBlank c = true

instance (name : List Char) : Decidable (IsName name) := inferInstanceAs (Decidable (_ ∧ _))

instance (gap : List Char) : Decidable (IsGap gap) := inferInstanceAs (Decidable (_ ∧ _))

namespace Attribute

/-- A name, a quote, and a value without that quote. -/
def WellFormed (a : Attribute) : Prop :=
  IsName a.name ∧ isQuote a.quote = true ∧ a.quote ∉ a.value

instance (a : Attribute) : Decidable a.WellFormed := inferInstanceAs (Decidable (_ ∧ _))

/-- The value with its quotes. -/
def printValue (a : Attribute) : List Char := a.quote :: (a.value ++ [a.quote])

def print (a : Attribute) : List Char := a.name ++ '=' :: a.printValue

/-- The parts of an attribute. -/
def lexemes (a : Attribute) : List Lexeme :=
  [⟨.attributeName, a.name⟩, ⟨.equals, ['=']⟩, ⟨.attributeValue, a.printValue⟩]

@[simp] theorem join_lexemes (a : Attribute) : Lexeme.join a.lexemes = a.print := by
  simp [lexemes, print]

end Attribute

/-- A start tag, or an empty element's tag. -/
structure StartTag where
  name : List Char
  /-- The attributes, each behind a gap. -/
  attributes : List (List Char × Attribute)
  /-- The gap before the closing bracket, or nothing. -/
  trailing : List Char
  /-- Whether the tag ends with `/>`. -/
  selfClosing : Bool
  deriving DecidableEq, Repr

namespace StartTag

/-- The closing bracket. -/
def bracket (tag : StartTag) : List Char := if tag.selfClosing then ['/', '>'] else ['>']

def print (tag : StartTag) : List Char :=
  '<' :: (tag.name ++ tag.attributes.flatMap (fun (gap, a) => gap ++ a.print) ++
    tag.trailing ++ tag.bracket)

/-- The parts of a tag. -/
def lexemes (tag : StartTag) : List Lexeme :=
  ⟨.bracketOpen, ['<']⟩ :: ⟨.tagOpenName, tag.name⟩ ::
    (tag.attributes.flatMap (fun (gap, a) => ⟨.text, gap⟩ :: a.lexemes) ++
      Lexeme.ofChars .text tag.trailing ++ [⟨.bracketClose, tag.bracket⟩])

/-- The parts make up the whole tag. -/
theorem join_lexemes (tag : StartTag) : Lexeme.join tag.lexemes = tag.print := by
  have h : ∀ attributes : List (List Char × Attribute),
      Lexeme.join (attributes.flatMap fun (gap, a) => ⟨.text, gap⟩ :: a.lexemes) =
        attributes.flatMap fun (gap, a) => gap ++ a.print := by
    intro attributes
    induction attributes with
    | nil => rfl
    | cons first rest ih => simp [ih]
  simp only [lexemes, print, Lexeme.join_cons, Lexeme.join_append, h, Lexeme.join_ofChars,
    Lexeme.join_nil]
  simp

/-- Names, gaps and attributes are well formed, and the name does not make the tag another form.
Where literals are not guarded, no value holds a blank or `><`. -/
def WellFormed (guard : Bool) (tag : StartTag) : Prop :=
  IsName tag.name ∧ tag.name.head? ≠ some '!' ∧ tag.name.head? ≠ some '?' ∧
    (∀ part ∈ tag.attributes, IsGap part.1 ∧ part.2.WellFormed ∧
      (guard = false →
        (∀ c ∈ part.2.value, Text.isBlank c = false) ∧ holdsSplit part.2.value = false)) ∧
    (tag.trailing = [] ∨ IsGap tag.trailing)

instance (guard : Bool) (tag : StartTag) : Decidable (tag.WellFormed guard) :=
  inferInstanceAs (Decidable (_ ∧ _))

end StartTag

end Markup

end PrettyMarkup
