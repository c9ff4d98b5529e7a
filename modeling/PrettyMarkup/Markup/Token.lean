import PrettyMarkup.Text.Blank
import PrettyMarkup.Text.ByteSize
import PrettyMarkup.Text.Quoted

/-!
# Tokens and display categories

A token is a stretch of the text with the kind the lexer gave it.  A category is
what a display needs to know of a kind; a span is a token reduced to that.
-/

namespace PrettyMarkup

namespace Markup

/-- What a stretch of markup can be. -/
inductive Kind where
  /-- The `<` of a tag. -/
  | bracketOpen
  /-- The `>` or `/>` of a tag. -/
  | bracketClose
  | tagOpenName
  /-- The whole body of a closing tag, with its `/`. -/
  | tagCloseName
  | attributeName
  | equals
  /-- The value as written, with its quotes. -/
  | attributeValue
  /-- Character data, and the blanks between attributes. -/
  | text
  /-- A whole comment, with its delimiters. -/
  | comment
  /-- What stands between the brackets of an instruction, with its `?`. -/
  | processingInstruction
  deriving DecidableEq, Repr

/-- How a stretch of markup is displayed. -/
inductive Category where
  /-- Both brackets, and the `=` before a value. -/
  | punctuation
  | tagName
  | attributeName
  | attributeValue
  | text
  | comment
  | processingInstruction
  deriving DecidableEq, Repr

namespace Kind

def all : List Kind :=
  [.bracketOpen, .bracketClose, .tagOpenName, .tagCloseName, .attributeName, .equals,
    .attributeValue, .text, .comment, .processingInstruction]

theorem mem_all (kind : Kind) : kind ∈ all := by
  cases kind <;> simp [all]

/-- Kinds are written in lower case with hyphens. -/
def name : Kind → String
  | bracketOpen => "bracket-open"
  | bracketClose => "bracket-close"
  | tagOpenName => "tag-open-name"
  | tagCloseName => "tag-close-name"
  | attributeName => "attribute-name"
  | equals => "equals"
  | attributeValue => "attribute-value"
  | text => "text"
  | comment => "comment"
  | processingInstruction => "processing-instruction"

/-- The kind of a given name. -/
def ofName? (name : String) : Option Kind := all.find? fun kind => kind.name == name

@[simp] theorem ofName?_name (kind : Kind) : ofName? kind.name = some kind := by
  cases kind <;> decide

/-- Every kind has one category. -/
def category : Kind → Category
  | bracketOpen | bracketClose | equals => .punctuation
  | tagOpenName | tagCloseName => .tagName
  | attributeName => .attributeName
  | attributeValue => .attributeValue
  | text => .text
  | comment => .comment
  | processingInstruction => .processingInstruction

end Kind

namespace Category

def all : List Category :=
  [.punctuation, .tagName, .attributeName, .attributeValue, .text, .comment,
    .processingInstruction]

theorem mem_all (category : Category) : category ∈ all := by
  cases category <;> simp [all]

/-- Categories are written in lower case with underscores. -/
def name : Category → String
  | punctuation => "punctuation"
  | tagName => "tag_name"
  | attributeName => "attribute_name"
  | attributeValue => "attribute_value"
  | text => "text"
  | comment => "comment"
  | processingInstruction => "processing_instruction"

end Category

/-- A stretch of a text: its kind, its characters, and the bytes it covers. -/
structure Token where
  kind : Kind
  text : String
  /-- The number of bytes before the token. -/
  start : Nat
  /-- The number of bytes up to the end of the token. -/
  stop : Nat
  deriving DecidableEq, Repr

/-- A stretch of text with the category it is displayed in. -/
structure Span where
  text : String
  category : Category
  deriving DecidableEq, Repr

namespace Token

/-- The token of a kind between two places of a text, if they are places of it. -/
def ofRange? (kind : Kind) (source : String) (start stop : Nat) : Option Token :=
  (Text.slice? start stop source.toList).map fun inside =>
    ⟨kind, String.ofList inside, start, stop⟩

/-- Whether a token holds nothing but blanks. -/
def isBlank (token : Token) : Bool := token.text.toList.all Text.isBlank

/-- A token in one line: its kind, and its text in quotes. -/
def describe (token : Token) : String :=
  token.kind.name ++ "(" ++ Text.quoted token.text ++ ")"

def span (token : Token) : Span := ⟨token.text, token.kind.category⟩

/-- Whether a token is more than the blanks between two others. -/
def isSignificant (token : Token) : Bool := !(token.kind == .text && token.isBlank)

end Token

/-- The text that a list of tokens was cut from. -/
def detokenize (tokens : List Token) : String :=
  String.ofList (tokens.flatMap fun token => token.text.toList)

/-- The tokens that are more than the blanks between two others. -/
def significant (tokens : List Token) : List Token := tokens.filter Token.isSignificant

end Markup

end PrettyMarkup
