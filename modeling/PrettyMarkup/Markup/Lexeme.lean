import PrettyMarkup.Markup.TagEnd
import PrettyMarkup.Markup.Token

/-!
# Cutting a text into lexemes

A lexeme is a token whose place is not counted yet.  A text is cut from left to
right: each step takes a run of character data, a comment or a tag, and the rest
is shorter.  `tokenize` then counts the places.

Nothing is an error.  A comment that is not closed runs to the end of the text, and
so does the body of a tag that has no end.
-/

namespace PrettyMarkup

namespace Markup

open Text

/-- A stretch of markup with its kind. -/
structure Lexeme where
  kind : Kind
  chars : List Char
  deriving DecidableEq, Repr

namespace Lexeme

/-- A stretch as a lexeme; an empty stretch is none. -/
def ofChars (kind : Kind) (chars : List Char) : List Lexeme :=
  if chars.isEmpty then [] else [⟨kind, chars⟩]

/-- The text that a list of lexemes was cut from. -/
def join (lexemes : List Lexeme) : List Char := lexemes.flatMap Lexeme.chars

@[simp] theorem join_nil : join [] = [] := rfl

@[simp] theorem join_cons (lexeme : Lexeme) (lexemes : List Lexeme) :
    join (lexeme :: lexemes) = lexeme.chars ++ join lexemes := by
  simp [join]

@[simp] theorem join_append (a b : List Lexeme) : join (a ++ b) = join a ++ join b := by
  simp [join]

@[simp] theorem join_ofChars (kind : Kind) (chars : List Char) :
    join (ofChars kind chars) = chars := by
  cases chars <;> simp [ofChars]

/-- Gives each lexeme its place, the first one after `start` bytes. -/
def place (start : Nat) : List Lexeme → List Token
  | [] => []
  | lexeme :: rest =>
    let stop := start + byteSize lexeme.chars
    ⟨lexeme.kind, String.ofList lexeme.chars, start, stop⟩ :: place stop rest

end Lexeme

/-! ## Attributes -/

/-- The number of characters of an attribute that go on from `state`.  Blanks end it; inside a
quoted value they do so only if literals are not guarded. -/
def attributeLength (guard : Bool) : QuoteState → List Char → Nat
  | _, [] => 0
  | state, c :: rest =>
    if isBlank c && (!guard || state.opened.isNone) then 0
    else attributeLength guard (state.next c) rest + 1

/-- An attribute is cut at its first `=`; one that starts with `=`, or has none, is a name. -/
def attributeLexemes (written : List Char) : List Lexeme :=
  match written.takeWhile (· != '='), written.dropWhile (· != '=') with
  | c :: name, equals :: value =>
    ⟨.attributeName, c :: name⟩ :: ⟨.equals, [equals]⟩ :: Lexeme.ofChars .attributeValue value
  | _, _ => [⟨.attributeName, written⟩]

/-- The gaps and attributes after the name of an opening tag. -/
def gapsAndAttributes (guard : Bool) : List Char → List Lexeme
  | [] => []
  | c :: rest =>
    if isBlank c then
      ⟨.text, c :: rest.takeWhile isBlank⟩ :: gapsAndAttributes guard (rest.dropWhile isBlank)
    else
      let n := attributeLength guard (QuoteState.outside.next c) rest
      attributeLexemes (c :: rest.take n) ++ gapsAndAttributes guard (rest.drop n)
  termination_by body => body.length
  decreasing_by
    · have := (List.dropWhile_suffix isBlank (l := rest)).length_le
      simp only [List.length_cons]
      omega
    · simp only [List.length_cons, List.length_drop]
      omega

@[simp] theorem gapsAndAttributes_nil (guard : Bool) : gapsAndAttributes guard [] = [] := by
  rw [gapsAndAttributes.eq_def]

theorem gapsAndAttributes_gap {c : Char} (hc : isBlank c = true) (guard : Bool)
    (rest : List Char) :
    gapsAndAttributes guard (c :: rest) =
      ⟨.text, c :: rest.takeWhile isBlank⟩ :: gapsAndAttributes guard (rest.dropWhile isBlank) := by
  rw [gapsAndAttributes.eq_def]
  exact if_pos hc

theorem gapsAndAttributes_attribute {c : Char} (hc : isBlank c = false) (guard : Bool)
    (rest : List Char) :
    gapsAndAttributes guard (c :: rest) =
      attributeLexemes
          (c :: rest.take (attributeLength guard (QuoteState.outside.next c) rest)) ++
        gapsAndAttributes guard
          (rest.drop (attributeLength guard (QuoteState.outside.next c) rest)) := by
  rw [gapsAndAttributes.eq_def]
  exact if_neg (by simp [hc])

/-- The name of an opening tag, and its gaps and attributes. -/
def nameAndAttributes (guard : Bool) (body : List Char) : List Lexeme :=
  Lexeme.ofChars .tagOpenName (body.takeWhile fun c => !isBlank c) ++
    gapsAndAttributes guard (body.dropWhile fun c => !isBlank c)

/-! ## Tags and comments -/

/-- The three forms of a tag. -/
inductive TagForm where
  | opening
  | closing
  | instruction
  deriving DecidableEq, Repr

namespace TagForm

/-- The form shows in the character after the `<`. -/
def ofBody (body : List Char) : TagForm :=
  if body.head? == some '?' then instruction
  else if body.head? == some '/' then closing
  else opening

/-- The kind of the whole body, where it is not cut further. -/
def bodyKind : TagForm → Kind
  | opening => .tagOpenName
  | closing => .tagCloseName
  | instruction => .processingInstruction

end TagForm

/-- The lexemes of a tag body that ends, up to and with the `>`.  A `/` at the end of an opening
tag belongs to the bracket. -/
def endedBody (guard : Bool) (body : List Char) : List Lexeme :=
  match TagForm.ofBody body with
  | .opening =>
    if body.getLast? == some '/' then
      nameAndAttributes guard body.dropLast ++ [⟨.bracketClose, ['/', '>']⟩]
    else nameAndAttributes guard body ++ [⟨.bracketClose, ['>']⟩]
  | form => Lexeme.ofChars form.bodyKind body ++ [⟨.bracketClose, ['>']⟩]

/-- The lexemes after the `<` of a tag, and the text after the tag. -/
def lexTagBody (guard : Bool) (body : List Char) : List Lexeme × List Char :=
  match findTagEnd guard body with
  | some n => (endedBody guard (body.take n), body.drop (n + 1))
  | none => (Lexeme.ofChars (TagForm.ofBody body).bodyKind body, [])

/-- Cuts a text after the first `-->`, or at its end. -/
def splitComment : List Char → List Char × List Char
  | [] => ([], [])
  | c :: rest =>
    if commentClose.isPrefixOf (c :: rest) then
      (commentClose, (c :: rest).drop commentClose.length)
    else (c :: (splitComment rest).1, (splitComment rest).2)

/-- The lexeme of a comment whose text after `<!--` is `rest`, and the text after the comment. -/
def lexComment (rest : List Char) : List Lexeme × List Char :=
  ([⟨.comment, '<' :: commentBodyOpen ++ (splitComment rest).1⟩], (splitComment rest).2)

/-! ## Whole texts -/

/-- The lexemes at the start of the text `c :: rest`, and the text after them. -/
def lexStep (guard : Bool) (c : Char) (rest : List Char) : List Lexeme × List Char :=
  if c == '<' then
    if commentBodyOpen.isPrefixOf rest then lexComment (rest.drop commentBodyOpen.length)
    else
      let (lexemes, after) := lexTagBody guard rest
      (⟨.bracketOpen, ['<']⟩ :: lexemes, after)
  else ([⟨.text, c :: rest.takeWhile (· != '<')⟩], rest.dropWhile (· != '<'))

theorem length_splitComment_le (rest : List Char) :
    (splitComment rest).2.length ≤ rest.length := by
  induction rest with
  | nil => simp [splitComment]
  | cons c rest ih =>
      rw [splitComment]
      split
      · simp only [List.length_drop]
        omega
      · simp only [List.length_cons]
        omega

theorem length_lexTagBody_le (guard : Bool) (body : List Char) :
    (lexTagBody guard body).2.length ≤ body.length := by
  rw [lexTagBody]
  split
  · simp only [List.length_drop]
    omega
  · simp

/-- Every step takes a character at least. -/
theorem length_lexStep_le (guard : Bool) (c : Char) (rest : List Char) :
    (lexStep guard c rest).2.length ≤ rest.length := by
  rw [lexStep]
  split
  · split
    · have := length_splitComment_le (rest.drop commentBodyOpen.length)
      simp only [List.length_drop] at this
      simp only [lexComment]
      omega
    · exact length_lexTagBody_le guard rest
  · exact (List.dropWhile_suffix (· != '<') (l := rest)).length_le

/-- Cuts a whole text. -/
def lexemes (guard : Bool) : List Char → List Lexeme
  | [] => []
  | c :: rest => (lexStep guard c rest).1 ++ lexemes guard (lexStep guard c rest).2
  termination_by source => source.length
  decreasing_by
    have := length_lexStep_le guard c rest
    simp only [List.length_cons]
    omega

@[simp] theorem lexemes_nil (guard : Bool) : lexemes guard [] = [] := by
  rw [lexemes]

theorem lexemes_cons (guard : Bool) (c : Char) (rest : List Char) :
    lexemes guard (c :: rest) =
      (lexStep guard c rest).1 ++ lexemes guard (lexStep guard c rest).2 := by
  rw [lexemes]

/-- The tokens of a text. -/
def tokenize (guard : Bool) (source : String) : List Token :=
  Lexeme.place 0 (lexemes guard source.toList)

/-- The text in the stretches that a display needs. -/
def spans (guard : Bool) (source : String) : List Span := (tokenize guard source).map Token.span

end Markup

end PrettyMarkup
