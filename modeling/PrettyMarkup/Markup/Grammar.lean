import Mathlib.Data.List.Chain
import PrettyMarkup.Markup.StartTag

/-!
# The grammar of lexemes

The lexemes of a text are a word of a small grammar: character data, comments and tags stand one
after another, and only the last of them may lack its end.  The grammar says which lexemes a tag
has and what their texts may be; it does not say how a text is cut.
-/

namespace PrettyMarkup

namespace Markup

open Text

/-- A token without its place. -/
def Token.lexeme (token : Token) : Lexeme := ⟨token.kind, token.text.toList⟩

/-- No lexeme of character data stands right behind another one. -/
def DataApart (lexemes : List Lexeme) : Prop :=
  lexemes.IsChain fun a b => ¬(a.kind = .text ∧ b.kind = .text)

/-! ## Attributes -/

/-- A word has characters, none of which is a blank or an equals sign. -/
def IsWord (word : List Char) : Prop := word ≠ [] ∧ ∀ c ∈ word, isBlank c = false ∧ c ≠ '='

/-- An attribute: a name alone, or with an equals sign and a value, which may be missing.  What
starts with an equals sign is a name as a whole. -/
inductive IsAttribute : List Lexeme → Prop
  | name {name : List Char} (h : IsWord name) : IsAttribute [⟨.attributeName, name⟩]
  | value {name : List Char} (h : IsWord name) (value : List Char) :
      IsAttribute
        (⟨.attributeName, name⟩ :: ⟨.equals, ['=']⟩ :: Lexeme.ofChars .attributeValue value)
  | equals (rest : List Char) : IsAttribute [⟨.attributeName, '=' :: rest⟩]

/-- Gaps and attributes in turn, of which a gap is the first. -/
inductive IsAttributeList : List Lexeme → Prop
  | nil : IsAttributeList []
  | gap {gap : List Char} (h : IsGap gap) : IsAttributeList [⟨.text, gap⟩]
  | cons {gap : List Char} {written rest : List Lexeme} (hgap : IsGap gap)
      (h : IsAttribute written) (hrest : IsAttributeList rest) :
      IsAttributeList (⟨.text, gap⟩ :: (written ++ rest))

/-! ## Comments -/

/-- A comment that ends at its first `-->`, of which no dash belongs to the opener. -/
structure IsClosedComment (comment : List Char) : Prop where
  opens : commentOpen <+: comment
  closes : commentClose <:+ comment
  seven_le : 7 ≤ byteSize comment
  eq_nil_of_eq_append : ∀ before after, comment = before ++ commentClose ++ after →
    4 ≤ byteSize before → after = []

/-- A comment without such an end. -/
structure IsOpenComment (comment : List Char) : Prop where
  opens : commentOpen <+: comment
  lt_four_of_eq_append : ∀ before after, comment = before ++ commentClose ++ after →
    byteSize before < 4

/-! ## Tags -/

/-- The body of an opening tag starts neither as that of a closing tag nor as an instruction. -/
def StartsOpeningTag (body : List Char) : Prop := body.head? ≠ some '/' ∧ body.head? ≠ some '?'

/-- A comment or a tag, with its end. -/
inductive IsTag : List Lexeme → Prop
  | comment {comment : List Char} (h : IsClosedComment comment) : IsTag [⟨.comment, comment⟩]
  | closing (name : List Char) :
      IsTag [⟨.bracketOpen, ['<']⟩, ⟨.tagCloseName, '/' :: name⟩, ⟨.bracketClose, ['>']⟩]
  | instruction (rest : List Char) :
      IsTag [⟨.bracketOpen, ['<']⟩, ⟨.processingInstruction, '?' :: rest⟩, ⟨.bracketClose, ['>']⟩]
  | opening {name bracket : List Char} {attributes : List Lexeme} (hstart : StartsOpeningTag name)
      (hname : ∀ c ∈ name, isBlank c = false) (hattributes : IsAttributeList attributes)
      (hbracket : bracket = ['>'] ∨ bracket = ['/', '>']) :
      IsTag (⟨.bracketOpen, ['<']⟩ ::
        (Lexeme.ofChars .tagOpenName name ++ attributes ++ [⟨.bracketClose, bracket⟩]))

/-- A comment or a tag in which the text ends.  All of such a tag behind its bracket, if there is
anything, is of one kind. -/
inductive IsTruncated (guard : Bool) : List Lexeme → Prop
  | comment {comment : List Char} (h : IsOpenComment comment) :
      IsTruncated guard [⟨.comment, comment⟩]
  | closing {name : List Char} (hend : findTagEnd guard ('/' :: name) = none) :
      IsTruncated guard [⟨.bracketOpen, ['<']⟩, ⟨.tagCloseName, '/' :: name⟩]
  | instruction {rest : List Char} (hend : findTagEnd guard ('?' :: rest) = none) :
      IsTruncated guard [⟨.bracketOpen, ['<']⟩, ⟨.processingInstruction, '?' :: rest⟩]
  | opening {body : List Char} (hstart : StartsOpeningTag body)
      (hend : findTagEnd guard body = none) :
      IsTruncated guard (⟨.bracketOpen, ['<']⟩ :: Lexeme.ofChars .tagOpenName body)

/-! ## Streams -/

/-- Character data and tags one after another.  Data goes on up to a tag or the end. -/
inductive IsStream (guard : Bool) : List Lexeme → Prop
  | nil : IsStream guard []
  | truncated {last : List Lexeme} (h : IsTruncated guard last) : IsStream guard last
  | data {data : List Char} {rest : List Lexeme} (hne : data ≠ []) (hlt : '<' ∉ data)
      (hnext : ∀ next ∈ rest.head?, next.kind ≠ .text) (hrest : IsStream guard rest) :
      IsStream guard (⟨.text, data⟩ :: rest)
  | tag {tag rest : List Lexeme} (h : IsTag tag) (hrest : IsStream guard rest) :
      IsStream guard (tag ++ rest)

end Markup

end PrettyMarkup
