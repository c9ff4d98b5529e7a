import Mathlib.Data.List.Chain
import PrettyMarkup.Markup.Lexeme
import PrettyMarkup.Proofs.Places

/-!
# Tokens partition their text

Every step of the lexer takes a stretch of the text as it stands: the lexemes of a step,
joined, are what the step has read.  So the lexemes of a whole text join to the text, none
of them is empty, and the places that `Lexeme.place` counts are the places of the tokens.

## Implementation notes

What a token owes to the text is stated on characters first: the text is cut into what
stands before the token, the token, and what stands after it.  Byte places follow from
that, for `slice?` as well as for the positions of `String`.
-/

namespace PrettyMarkup

namespace Markup

open Text

/-! ## Nothing is lost -/

theorem join_attributeLexemes (written : List Char) :
    Lexeme.join (attributeLexemes written) = written := by
  have hcut := List.takeWhile_append_dropWhile (p := (· != '=')) (l := written)
  rw [attributeLexemes]
  split
  · rename_i c name equals value hname hvalue
    rw [hname, hvalue] at hcut
    simpa using hcut
  · simp

theorem join_gapsAndAttributes (guard : Bool) (body : List Char) :
    Lexeme.join (gapsAndAttributes guard body) = body := by
  fun_induction gapsAndAttributes guard body with
  | case1 => rfl
  | case2 c rest hc ih =>
      rw [Lexeme.join_cons, ih, List.cons_append, List.takeWhile_append_dropWhile]
  | case3 c rest hc n ih =>
      rw [Lexeme.join_append, join_attributeLexemes, ih, List.cons_append, List.take_append_drop]

theorem join_nameAndAttributes (guard : Bool) (body : List Char) :
    Lexeme.join (nameAndAttributes guard body) = body := by
  rw [nameAndAttributes, Lexeme.join_append, Lexeme.join_ofChars, join_gapsAndAttributes,
    List.takeWhile_append_dropWhile]

/-- The lexemes of a body that ends make up the body and its `>`. -/
theorem join_endedBody (guard : Bool) (body : List Char) :
    Lexeme.join (endedBody guard body) = body ++ ['>'] := by
  rw [endedBody]
  split
  · split
    · rename_i hslash
      rw [beq_iff_eq] at hslash
      have hbody : body.dropLast ++ ['/'] = body := List.dropLast_append_getLast? '/' hslash
      calc
        Lexeme.join (nameAndAttributes guard body.dropLast ++ [⟨.bracketClose, ['/', '>']⟩])
          = (body.dropLast ++ ['/']) ++ ['>'] := by simp [join_nameAndAttributes]
        _ = body ++ ['>'] := by rw [hbody]
    · simp [join_nameAndAttributes]
  · simp

/-- A body that ends is cut right before its `>`. -/
theorem take_append_drop_findTagEnd {guard : Bool} {body : List Char} {n : Nat}
    (h : findTagEnd guard body = some n) : body.take n ++ '>' :: body.drop (n + 1) = body := by
  obtain ⟨hn, hget⟩ := List.getElem?_eq_some_iff.1 (getElem?_findTagEnd h)
  rw [← hget, ← List.drop_eq_getElem_cons hn, List.take_append_drop]

theorem join_lexTagBody (guard : Bool) (body : List Char) :
    Lexeme.join (lexTagBody guard body).1 ++ (lexTagBody guard body).2 = body := by
  rw [lexTagBody]
  split
  · rename_i n hn
    have hcut := take_append_drop_findTagEnd hn
    simpa [join_endedBody] using hcut
  · simp

theorem splitComment_append (rest : List Char) :
    (splitComment rest).1 ++ (splitComment rest).2 = rest := by
  induction rest with
  | nil => rfl
  | cons c rest ih =>
      rw [splitComment]
      split
      · rename_i hclose
        obtain ⟨after, hafter⟩ := List.isPrefixOf_iff_prefix.1 hclose
        rw [← hafter, List.drop_left]
      · rw [List.cons_append, ih]

/-- A step takes its lexemes from the front of the text. -/
theorem join_lexStep (guard : Bool) (c : Char) (rest : List Char) :
    Lexeme.join (lexStep guard c rest).1 ++ (lexStep guard c rest).2 = c :: rest := by
  rw [lexStep]
  split
  · rename_i hc
    rw [beq_iff_eq] at hc
    subst hc
    split
    · rename_i hopen
      obtain ⟨after, rfl⟩ := List.isPrefixOf_iff_prefix.1 hopen
      simp [lexComment, splitComment_append]
    · simpa using join_lexTagBody guard rest
  · simp [List.takeWhile_append_dropWhile]

/-- The lexemes of a text make up the text. -/
theorem join_lexemes (guard : Bool) (source : List Char) :
    Lexeme.join (lexemes guard source) = source := by
  fun_induction lexemes guard source with
  | case1 => rfl
  | case2 c rest ih => rw [Lexeme.join_append, ih, join_lexStep]

/-! ## No lexeme is empty -/

/-- Every lexeme of a list has characters. -/
def AllInked (lexemes : List Lexeme) : Prop := ∀ lexeme ∈ lexemes, lexeme.chars ≠ []

/-- A lexeme behind the first one of a tag: it has characters, and is no start of a tag. -/
structure WithinTag (lexeme : Lexeme) : Prop where
  chars_ne : lexeme.chars ≠ []
  kind_ne : lexeme.kind ≠ .bracketOpen ∧ lexeme.kind ≠ .comment

theorem withinTag_ofChars {kind : Kind} (h : kind ≠ .bracketOpen ∧ kind ≠ .comment)
    (chars : List Char) : ∀ lexeme ∈ Lexeme.ofChars kind chars, WithinTag lexeme := by
  intro lexeme hmem
  cases chars with
  | nil => simp [Lexeme.ofChars] at hmem
  | cons c chars =>
      obtain rfl : lexeme = ⟨kind, c :: chars⟩ := by simpa [Lexeme.ofChars] using hmem
      exact ⟨by simp, h⟩

theorem withinTag_bracketClose {chars : List Char} (h : chars ≠ []) :
    ∀ lexeme ∈ [Lexeme.mk .bracketClose chars], WithinTag lexeme := by
  intro lexeme hmem
  rw [List.mem_singleton.1 hmem]
  exact ⟨h, by simp⟩

theorem bodyKind_ne (form : TagForm) :
    form.bodyKind ≠ .bracketOpen ∧ form.bodyKind ≠ .comment := by
  cases form <;> decide

theorem withinTag_attributeLexemes {written : List Char} (h : written ≠ []) :
    ∀ lexeme ∈ attributeLexemes written, WithinTag lexeme := by
  rw [attributeLexemes]
  split
  · rw [List.forall_mem_cons, List.forall_mem_cons]
    exact ⟨⟨by simp, by simp⟩, ⟨by simp, by simp⟩, withinTag_ofChars (by decide) _⟩
  · intro lexeme hmem
    rw [List.mem_singleton.1 hmem]
    exact ⟨h, by simp⟩

theorem withinTag_gapsAndAttributes (guard : Bool) (body : List Char) :
    ∀ lexeme ∈ gapsAndAttributes guard body, WithinTag lexeme := by
  fun_induction gapsAndAttributes guard body with
  | case1 => simp
  | case2 c rest hc ih => exact List.forall_mem_cons.2 ⟨⟨by simp, by simp⟩, ih⟩
  | case3 c rest hc n ih =>
      exact List.forall_mem_append.2 ⟨withinTag_attributeLexemes (by simp), ih⟩

theorem withinTag_nameAndAttributes (guard : Bool) (body : List Char) :
    ∀ lexeme ∈ nameAndAttributes guard body, WithinTag lexeme :=
  List.forall_mem_append.2
    ⟨withinTag_ofChars (by decide) _, withinTag_gapsAndAttributes guard _⟩

/-- The lexemes of a body that ends stand within its tag. -/
theorem withinTag_endedBody (guard : Bool) (body : List Char) :
    ∀ lexeme ∈ endedBody guard body, WithinTag lexeme := by
  rw [endedBody]
  split
  · have hname := withinTag_nameAndAttributes guard
    split
    · exact List.forall_mem_append.2 ⟨hname _, withinTag_bracketClose (by simp)⟩
    · exact List.forall_mem_append.2 ⟨hname _, withinTag_bracketClose (by simp)⟩
  · exact List.forall_mem_append.2
      ⟨withinTag_ofChars (bodyKind_ne _) body, withinTag_bracketClose (by simp)⟩

theorem withinTag_lexTagBody (guard : Bool) (body : List Char) :
    ∀ lexeme ∈ (lexTagBody guard body).1, WithinTag lexeme := by
  rw [lexTagBody]
  split
  · exact withinTag_endedBody guard _
  · exact withinTag_ofChars (bodyKind_ne _) body

theorem allInked_lexStep (guard : Bool) (c : Char) (rest : List Char) :
    AllInked (lexStep guard c rest).1 := by
  rw [lexStep]
  split
  · split
    · simp [AllInked, lexComment]
    · refine List.forall_mem_cons.2 ⟨by simp, ?_⟩
      intro lexeme hmem
      exact (withinTag_lexTagBody guard rest lexeme hmem).chars_ne
  · simp [AllInked]

theorem allInked_lexemes (guard : Bool) (source : List Char) :
    AllInked (lexemes guard source) := by
  fun_induction lexemes guard source with
  | case1 => simp [AllInked]
  | case2 c rest ih => exact List.forall_mem_append.2 ⟨allInked_lexStep guard c rest, ih⟩

/-! ## Places -/

/-- A token of a text as it stands behind `n` bytes. -/
def Token.shift (n : Nat) (token : Token) : Token :=
  { token with start := n + token.start, stop := n + token.stop }

namespace Lexeme

theorem place_append (start : Nat) (a b : List Lexeme) :
    place start (a ++ b) = place start a ++ place (start + byteSize (join a)) b := by
  induction a generalizing start with
  | nil => rfl
  | cons lexeme a ih =>
      rw [List.cons_append, place, ih, place, join_cons, byteSize_append, List.cons_append,
        Nat.add_assoc]

/-- Behind `n` bytes lexemes have the places that they have at the start of a text, shifted. -/
theorem place_add (n start : Nat) (lexemes : List Lexeme) :
    place (n + start) lexemes = (place start lexemes).map (Token.shift n) := by
  induction lexemes generalizing start with
  | nil => rfl
  | cons lexeme rest ih =>
      rw [place, place, List.map_cons, ← ih, Nat.add_assoc]
      rfl

/-- A placed token keeps its kind and its characters. -/
theorem mem_of_mem_place {lexemes : List Lexeme} {start : Nat} {token : Token}
    (h : token ∈ place start lexemes) : ⟨token.kind, token.text.toList⟩ ∈ lexemes := by
  induction lexemes generalizing start with
  | nil => simp [place] at h
  | cons lexeme rest ih =>
      rcases List.mem_cons.1 h with rfl | h
      · simp
      · exact List.mem_cons_of_mem _ (ih h)

/-- Each placed token stands in the joined text where its place says. -/
theorem exists_of_mem_place {lexemes : List Lexeme} {start : Nat} {token : Token}
    (h : token ∈ place start lexemes) :
    ∃ before after, join lexemes = before ++ token.text.toList ++ after ∧
      token.start = start + byteSize before ∧
      token.stop = token.start + byteSize token.text.toList := by
  induction lexemes generalizing start with
  | nil => simp [place] at h
  | cons lexeme rest ih =>
      rcases List.mem_cons.1 h with rfl | h
      · exact ⟨[], join rest, by simp, by simp, by simp⟩
      · obtain ⟨before, after, hjoin, hstart, hstop⟩ := ih h
        refine ⟨lexeme.chars ++ before, after, by simp [hjoin], ?_, hstop⟩
        rw [hstart, byteSize_append, Nat.add_assoc]

theorem isChain_place (lexemes : List Lexeme) (start : Nat) :
    (place start lexemes).IsChain fun a b => a.stop = b.start := by
  induction lexemes generalizing start with
  | nil => exact .nil
  | cons lexeme rest ih =>
      rw [place, List.isChain_cons]
      refine ⟨?_, ih _⟩
      intro next hnext
      cases rest with
      | nil => simp [place] at hnext
      | cons second rest =>
          simp only [place, List.head?_cons, Option.mem_def, Option.some.injEq] at hnext
          rw [← hnext]

theorem stop_of_getLast?_place {lexemes : List Lexeme} {start : Nat} {token : Token}
    (h : token ∈ (place start lexemes).getLast?) :
    token.stop = start + byteSize (join lexemes) := by
  induction lexemes generalizing start with
  | nil => simp [place] at h
  | cons lexeme rest ih =>
      cases rest with
      | nil =>
          simp only [place, List.getLast?_singleton, Option.mem_def, Option.some.injEq] at h
          simp [← h]
      | cons second rest =>
          rw [place, place, List.getLast?_cons_cons, ← place] at h
          rw [ih h, join_cons lexeme, byteSize_append, Nat.add_assoc]

theorem flatMap_text_place (lexemes : List Lexeme) (start : Nat) :
    (place start lexemes).flatMap (fun token => token.text.toList) = join lexemes := by
  induction lexemes generalizing start with
  | nil => rfl
  | cons lexeme rest ih => simp [place, ih]

end Lexeme

/-! ## Partitions -/

/-- The tokens cut a text into stretches that stand side by side: their ranges are not empty,
begin with the text, go on without gaps, and end with it. -/
structure IsPartition (source : String) (tokens : List Token) : Prop where
  start_lt_stop : ∀ token ∈ tokens, token.start < token.stop
  start_head : ∀ token ∈ tokens.head?, token.start = 0
  adjacent : tokens.IsChain fun a b => a.stop = b.start
  stop_last : ∀ token ∈ tokens.getLast?, token.stop = source.utf8ByteSize
  eq_nil_iff : tokens = [] ↔ source = ""
  /-- Both ends of a range are character boundaries. -/
  isValid : ∀ token ∈ tokens,
    (⟨token.start⟩ : String.Pos.Raw).IsValid source ∧
      (⟨token.stop⟩ : String.Pos.Raw).IsValid source
  slice : ∀ token ∈ tokens,
    slice? token.start token.stop source.toList = some token.text.toList

/-- Lexemes with characters, placed from the start of their text, partition it. -/
theorem isPartition_place {lexemes : List Lexeme} (h : AllInked lexemes) :
    IsPartition (String.ofList (Lexeme.join lexemes)) (Lexeme.place 0 lexemes) where
  start_lt_stop := by
    intro token hmem
    have hinked : token.text.toList ≠ [] := h _ (Lexeme.mem_of_mem_place hmem)
    obtain ⟨before, after, -, hstart, hstop⟩ := Lexeme.exists_of_mem_place hmem
    have hsize : byteSize token.text.toList ≠ 0 := mt byteSize_eq_zero_iff.1 hinked
    omega
  start_head := by
    intro token hhead
    cases lexemes with
    | nil => simp [Lexeme.place] at hhead
    | cons lexeme rest =>
        simp only [Lexeme.place, List.head?_cons, Option.mem_def, Option.some.injEq] at hhead
        rw [← hhead]
  adjacent := Lexeme.isChain_place lexemes 0
  stop_last := by
    intro token hlast
    rw [Lexeme.stop_of_getLast?_place hlast, utf8ByteSize_ofList, Nat.zero_add]
  eq_nil_iff := by
    rw [String.ofList_eq_empty_iff]
    cases lexemes with
    | nil => simp [Lexeme.place]
    | cons lexeme rest =>
        have hchars : lexeme.chars ≠ [] := h lexeme (by simp)
        simp [Lexeme.place, hchars]
  isValid := by
    intro token hmem
    obtain ⟨before, after, hjoin, hstart, hstop⟩ := Lexeme.exists_of_mem_place hmem
    rw [hjoin, hstop, hstart, Nat.zero_add]
    constructor
    · rw [List.append_assoc]
      exact isValid_byteSize before (token.text.toList ++ after)
    · rw [← byteSize_append]
      exact isValid_byteSize (before ++ token.text.toList) after
  slice := by
    intro token hmem
    obtain ⟨before, after, hjoin, hstart, hstop⟩ := Lexeme.exists_of_mem_place hmem
    rw [hjoin, hstop, hstart, Nat.zero_add, String.toList_ofList]
    exact slice?_append before token.text.toList after

/-- Cutting any text is lossless: its tokens partition it, so they and their spans, one for each
token, give the text back. -/
theorem tokenize_lossless (guard : Bool) (source : String) :
    IsPartition source (tokenize guard source) ∧
      detokenize (tokenize guard source) = source ∧
      (spans guard source).length = (tokenize guard source).length ∧
      String.ofList ((spans guard source).flatMap fun span => span.text.toList) = source := by
  have hjoin : String.ofList (Lexeme.join (lexemes guard source.toList)) = source := by
    rw [join_lexemes, String.ofList_toList]
  have hspans : (spans guard source).flatMap (fun span => span.text.toList) =
      (tokenize guard source).flatMap fun token => token.text.toList := by
    simp [spans, List.flatMap_map, Token.span]
  refine ⟨?_, ?_, by simp [spans], ?_⟩
  · have hpartition := isPartition_place (allInked_lexemes guard source.toList)
    rwa [hjoin] at hpartition
  · rw [detokenize, tokenize, Lexeme.flatMap_text_place, hjoin]
  · rw [hspans, tokenize, Lexeme.flatMap_text_place, hjoin]

end Markup

end PrettyMarkup
