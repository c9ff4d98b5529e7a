import PrettyMarkup.Markup.Literal
import PrettyMarkup.Text.ByteSize

/-!
# Where a tag ends

The body of a tag is what stands after its `<`.  It ends at the first `>` that is
not inside a literal: a quoted attribute value, or a CDATA section.  A `>` inside a
literal ends the tag as well when a `<` follows it, unless literals are guarded.

## Implementation notes

Positions in a body are counted in characters.  The `>` and the quotes are ASCII,
so the place in bytes is the size of the characters before it.
-/

namespace PrettyMarkup

namespace Markup

/-- What reading a tag remembers: the quote that is open, and whether the last
character was an equals sign. -/
structure QuoteState where
  opened : Option Char
  afterEquals : Bool
  deriving DecidableEq, Repr

namespace QuoteState

/-- The state at the start of a body, and at the start of an attribute. -/
def outside : QuoteState := ⟨none, false⟩

/-- A quote opens a value right after an equals sign; the same quote closes it. -/
def next (state : QuoteState) (c : Char) : QuoteState where
  opened :=
    match state.opened with
    | some quote => if c == quote then none else some quote
    | none => if isQuote c && state.afterEquals then some c else none
  afterEquals := c == '='

/-- The state after a whole text. -/
def after (state : QuoteState) (text : List Char) : QuoteState := text.foldl next state

@[simp] theorem after_nil (state : QuoteState) : state.after [] = state := rfl

@[simp] theorem after_cons (state : QuoteState) (c : Char) (text : List Char) :
    state.after (c :: text) = (state.next c).after text := rfl

end QuoteState

/-- Finds the end of a tag body outside CDATA. -/
def findPlainEnd (guard : Bool) : QuoteState → List Char → Option Nat
  | _, [] => none
  | state, c :: rest =>
    if c == '>' && (state.opened.isNone || splitsLiteral guard rest) then some 0
    else (findPlainEnd guard (state.next c) rest).map (· + 1)

/-- Finds the end of a CDATA section; `bracketed` says that the two characters before are `]]`,
and `lastBracket` that the one before is `]`. -/
def findCdataEnd (guard : Bool) (bracketed lastBracket : Bool) : List Char → Option Nat
  | [] => none
  | c :: rest =>
    if c == '>' && (bracketed || splitsLiteral guard rest) then some 0
    else (findCdataEnd guard (lastBracket && c == ']') (c == ']') rest).map (· + 1)

/-- The number of characters of a tag body, before the `>` that ends it. -/
def findTagEnd (guard : Bool) (body : List Char) : Option Nat :=
  if cdataBodyOpen.isPrefixOf body then
    (findCdataEnd guard false false (body.drop cdataBodyOpen.length)).map
      (· + cdataBodyOpen.length)
  else findPlainEnd guard .outside body

/-- The place of a tag's end in bytes of its body. -/
def tagEndByte (guard : Bool) (body : List Char) : Option Nat :=
  (findTagEnd guard body).map fun n => Text.byteSize (body.take n)

theorem getElem?_findPlainEnd {guard : Bool} {state : QuoteState} {body : List Char} {n : Nat}
    (h : findPlainEnd guard state body = some n) : body[n]? = some '>' := by
  induction body generalizing state n with
  | nil => simp [findPlainEnd] at h
  | cons c rest ih =>
      rw [findPlainEnd] at h
      split at h
      · rename_i hc
        cases h
        simp only [Bool.and_eq_true, beq_iff_eq] at hc
        simp [hc.1]
      · obtain ⟨m, hm, rfl⟩ := Option.map_eq_some_iff.1 h
        simpa using ih hm

theorem getElem?_findCdataEnd {guard a b : Bool} {body : List Char} {n : Nat}
    (h : findCdataEnd guard a b body = some n) : body[n]? = some '>' := by
  induction body generalizing a b n with
  | nil => simp [findCdataEnd] at h
  | cons c rest ih =>
      rw [findCdataEnd] at h
      split at h
      · rename_i hc
        cases h
        simp only [Bool.and_eq_true, beq_iff_eq] at hc
        simp [hc.1]
      · obtain ⟨m, hm, rfl⟩ := Option.map_eq_some_iff.1 h
        simpa using ih hm

/-- A tag ends at a `>` of its body. -/
theorem getElem?_findTagEnd {guard : Bool} {body : List Char} {n : Nat}
    (h : findTagEnd guard body = some n) : body[n]? = some '>' := by
  rw [findTagEnd] at h
  split at h
  · obtain ⟨m, hm, rfl⟩ := Option.map_eq_some_iff.1 h
    have := getElem?_findCdataEnd hm
    rw [List.getElem?_drop] at this
    rwa [Nat.add_comm]
  · exact getElem?_findPlainEnd h

end Markup

end PrettyMarkup
