import PrettyMarkup.Proofs.Places
import PrettyMarkup.Proofs.QuotedValues
import PrettyMarkup.Proofs.Scan

/-!
# The first end of a tag

A tag ends at the first `>` of its body that does not stand in a literal, or that stands in one
where literals are not guarded and a `<` comes next.  Two loops look for it, one for quoted values
and one for CDATA sections; both are a search for the first `>` that passes a test on what stands
in front of it and behind it (`firstEnd`).  A test that lets more pass stops no later, so guarding
never moves the end of a tag to the front.
-/

namespace PrettyMarkup

namespace Markup

open Text

/-- Whether a `>` behind `front` in a tag body stands in a literal: in a CDATA section that `]]`
does not close there, or in a quoted value. -/
def InLiteral (front : List Char) : Prop :=
  if cdataBodyOpen <+: front then ¬cdataMarks <:+ front else ∃ quote, EndsInValue quote front

/-! ## Searching for a `>` -/

/-- The first `>` of a text that passes a test on what stands in front of it and behind it.  The
text stands behind `read`. -/
def firstEnd (ends : List Char → List Char → Bool) (read : List Char) : List Char → Option Nat
  | [] => none
  | c :: rest =>
    if c == '>' && ends read rest then some 0
    else (firstEnd ends (read ++ [c]) rest).map (· + 1)

section Places

variable {c : Char} {text : List Char} {p : List Char → List Char → Prop}

/-- What holds of every `>` of a text, by its first character. -/
theorem forall_place_cons :
    (∀ front rest, c :: text = front ++ '>' :: rest → p front rest) ↔
      (c = '>' → p [] text) ∧
        ∀ front rest, text = front ++ '>' :: rest → p (c :: front) rest := by
  constructor
  · intro h
    constructor
    · rintro rfl
      exact h [] text rfl
    · rintro front rest rfl
      exact h (c :: front) rest rfl
  · rintro ⟨hhead, htail⟩ front rest hcat
    cases front with
    | nil =>
        obtain ⟨rfl, rfl⟩ := List.cons.inj hcat
        exact hhead rfl
    | cons d front =>
        obtain ⟨rfl, hcut⟩ := List.cons.inj hcat
        exact htail front rest hcut

theorem exists_place_cons :
    (∃ front rest, c :: text = front ++ '>' :: rest ∧ p front rest) ↔
      (c = '>' ∧ p [] text) ∨
        ∃ front rest, text = front ++ '>' :: rest ∧ p (c :: front) rest := by
  have h := not_congr (@forall_place_cons c text fun front rest => ¬p front rest)
  simpa only [not_forall, not_not, not_and_or, exists_prop] using h

end Places

section FirstEnd

variable {ends ends' : List Char → List Char → Bool} {read text : List Char} {n : Nat}

/-- The search stops nowhere exactly if no `>` passes. -/
theorem firstEnd_eq_none_iff :
    firstEnd ends read text = none ↔
      ∀ front rest, text = front ++ '>' :: rest → ends (read ++ front) rest = false := by
  induction text generalizing read with
  | nil => simp [firstEnd]
  | cons c text ih =>
      rw [forall_place_cons, firstEnd, List.append_nil]
      cases hc : c == '>' && ends read text with
      | true =>
          rw [Bool.and_eq_true, beq_iff_eq] at hc
          simp [hc]
      | false =>
          rw [Bool.and_eq_false_imp, beq_iff_eq] at hc
          rw [if_neg (by simp), Option.map_eq_none_iff, ih]
          simp only [List.append_assoc, List.singleton_append]
          exact ⟨fun h => ⟨hc, h⟩, And.right⟩

/-- The search stops at the first `>` that passes. -/
theorem firstEnd_eq_some_iff :
    firstEnd ends read text = some n ↔
      ∃ front rest, text = front ++ '>' :: rest ∧ front.length = n ∧
        ends (read ++ front) rest = true ∧
        ∀ before after, text = before ++ '>' :: after → before.length < n →
          ends (read ++ before) after = false := by
  induction text generalizing read n with
  | nil => simp [firstEnd]
  | cons c text ih =>
      rw [exists_place_cons, forall_place_cons, firstEnd, List.append_nil, List.length_nil]
      cases hc : c == '>' && ends read text with
      | true =>
          rw [Bool.and_eq_true, beq_iff_eq] at hc
          obtain ⟨rfl, hends⟩ := hc
          rw [if_pos rfl, Option.some.injEq]
          constructor
          · rintro rfl
            exact Or.inl ⟨rfl, rfl, hends, by simp [hends]⟩
          · rintro (⟨-, rfl, -⟩ | ⟨front, rest, -, rfl, -, hfirst, -⟩)
            · rfl
            · simp [hends] at hfirst
      | false =>
          rw [Bool.and_eq_false_imp, beq_iff_eq] at hc
          rw [if_neg (by simp), Option.map_eq_some_iff]
          constructor
          · rintro ⟨m, hm, rfl⟩
            obtain ⟨front, rest, htext, rfl, hends, hfirst⟩ := ih.1 hm
            refine Or.inr ⟨front, rest, htext, rfl, by simpa using hends, fun h _ => hc h, ?_⟩
            intro before after hcut hlt
            simpa using hfirst before after hcut (Nat.lt_of_succ_lt_succ hlt)
          · rintro (⟨hgt, -, hends, -⟩ | ⟨front, rest, htext, rfl, hends, -, hfirst⟩)
            · rw [hc hgt] at hends
              exact absurd hends Bool.false_ne_true
            · refine ⟨front.length, ih.2 ⟨front, rest, htext, rfl, by simpa using hends, ?_⟩, rfl⟩
              intro before after hcut hlt
              simpa using hfirst before after hcut (Nat.succ_lt_succ hlt)

/-- Tests that agree at every `>` stop at the same one. -/
theorem firstEnd_congr
    (h : ∀ front rest, text = front ++ '>' :: rest →
      ends (read ++ front) rest = ends' (read ++ front) rest) :
    firstEnd ends read text = firstEnd ends' read text := by
  induction text generalizing read with
  | nil => rfl
  | cons c text ih =>
      have hhead : (c == '>' && ends read text) = (c == '>' && ends' read text) := by
        cases hc : c == '>' with
        | false => rfl
        | true =>
            have hnil := h [] text (by rw [beq_iff_eq.1 hc]; rfl)
            rw [List.append_nil] at hnil
            rw [hnil]
      have htail : firstEnd ends (read ++ [c]) text = firstEnd ends' (read ++ [c]) text := by
        apply ih
        intro front rest hcat
        simpa using h (c :: front) rest (by rw [hcat]; rfl)
      rw [firstEnd, firstEnd, hhead, htail]

theorem firstEnd_append_of_not_mem {front : List Char} (h : '>' ∉ front) :
    firstEnd ends read (front ++ text) =
      (firstEnd ends (read ++ front) text).map (· + front.length) := by
  induction front generalizing read with
  | nil => simp
  | cons c front ih =>
      rw [List.mem_cons, not_or] at h
      have hc : (c == '>') = false := beq_eq_false_iff_ne.2 (Ne.symm h.1)
      rw [List.cons_append, firstEnd, hc, Bool.false_and, if_neg (by simp), ih h.2,
        Option.map_map, List.append_assoc]
      rfl

/-- A test that lets more pass stops no later. -/
theorem exists_firstEnd_le (h : ∀ front rest, ends front rest = true → ends' front rest = true)
    (hn : firstEnd ends read text = some n) : ∃ m ≤ n, firstEnd ends' read text = some m := by
  obtain ⟨front, rest, htext, rfl, hends, -⟩ := firstEnd_eq_some_iff.1 hn
  have hpass : ends' (read ++ front) rest = true := h _ _ hends
  cases hm : firstEnd ends' read text with
  | none =>
      rw [firstEnd_eq_none_iff.1 hm front rest htext] at hpass
      exact absurd hpass Bool.false_ne_true
  | some m =>
      refine ⟨m, ?_, rfl⟩
      obtain ⟨-, -, -, -, -, hfirst⟩ := firstEnd_eq_some_iff.1 hm
      by_contra hlt
      rw [hfirst front rest htext (Nat.lt_of_not_le hlt)] at hpass
      exact absurd hpass Bool.false_ne_true

end FirstEnd

/-! ## Both loops are that search -/

/-- Whether a `>` behind `front` stands in a literal, as a reader finds out. -/
def readsLiteral (front : List Char) : Bool :=
  if cdataBodyOpen.isPrefixOf front then !cdataMarks.isSuffixOf front
  else (QuoteState.outside.after front).opened.isSome

theorem readsLiteral_iff {front : List Char} : readsLiteral front = true ↔ InLiteral front := by
  rw [readsLiteral, InLiteral]
  split
  · rename_i hopen
    rw [if_pos (List.isPrefixOf_iff_prefix.1 hopen), Bool.not_eq_true', ← Bool.not_eq_true,
      List.isSuffixOf_iff_suffix]
  · rename_i hopen
    rw [if_neg (mt List.isPrefixOf_iff_prefix.2 hopen), Option.isSome_iff_exists]
    exact exists_congr fun quote => endsInValue_iff.symm

/-- Whether a `>` ends a tag, by what stands in front of it in the body and behind it. -/
def endsTag (guard : Bool) (front rest : List Char) : Bool :=
  !readsLiteral front || splitsLiteral guard rest

theorem findPlainEnd_eq_firstEnd (guard : Bool) (read text : List Char) :
    findPlainEnd guard (QuoteState.outside.after read) text =
      firstEnd (fun front rest =>
        (QuoteState.outside.after front).opened.isNone || splitsLiteral guard rest) read text := by
  induction text generalizing read with
  | nil => rfl
  | cons c text ih => rw [findPlainEnd, firstEnd, ← QuoteState.after_concat, ih]

theorem findCdataEnd_eq_firstEnd (guard : Bool) (read text : List Char) :
    findCdataEnd guard (cdataMarks.isSuffixOf read) ([']'].isSuffixOf read) text =
      firstEnd (fun front rest => cdataMarks.isSuffixOf front || splitsLiteral guard rest)
        read text := by
  induction text generalizing read with
  | nil => rfl
  | cons c text ih =>
      have hone : (c == ']') = [']'].isSuffixOf (read ++ [c]) := by
        rw [Bool.eq_iff_iff, List.isSuffixOf_iff_suffix, beq_iff_eq, @eq_comm _ c]
        simp
      have htwo : ([']'].isSuffixOf read && c == ']') = cdataMarks.isSuffixOf (read ++ [c]) := by
        rw [Bool.eq_iff_iff, List.isSuffixOf_iff_suffix, Bool.and_eq_true,
          List.isSuffixOf_iff_suffix, beq_iff_eq, @eq_comm _ c]
        exact concat_suffix_concat_iff.symm
      rw [findCdataEnd, firstEnd, htwo, hone, ih]

/-- The end of a tag is the first `>` that ends it. -/
theorem findTagEnd_eq_firstEnd (guard : Bool) (body : List Char) :
    findTagEnd guard body = firstEnd (endsTag guard) [] body := by
  rw [findTagEnd]
  split
  · rename_i hopen
    obtain ⟨text, rfl⟩ := List.isPrefixOf_iff_prefix.1 hopen
    rw [List.drop_left, firstEnd_append_of_not_mem (by decide), List.nil_append]
    have hmarks : cdataMarks.isSuffixOf cdataBodyOpen = false := by decide
    have hmark : [']'].isSuffixOf cdataBodyOpen = false := by decide
    have hsearch := findCdataEnd_eq_firstEnd guard cdataBodyOpen text
    rw [hmarks, hmark] at hsearch
    rw [hsearch]
    congr 1
    apply firstEnd_congr
    intro front rest _
    have hfront : cdataBodyOpen.isPrefixOf (cdataBodyOpen ++ front) = true :=
      List.isPrefixOf_iff_prefix.2 (List.prefix_append _ _)
    rw [endsTag, readsLiteral, if_pos hfront, Bool.not_not]
  · rename_i hopen
    have hsearch := findPlainEnd_eq_firstEnd guard [] body
    rw [QuoteState.after_nil] at hsearch
    rw [hsearch]
    apply firstEnd_congr
    intro front rest hbody
    have hfront : ¬cdataBodyOpen.isPrefixOf front = true := by
      intro hbegins
      have hlong := (List.isPrefixOf_iff_prefix.1 hbegins).trans ⟨'>' :: rest, hbody.symm⟩
      exact hopen (List.isPrefixOf_iff_prefix.2 hlong)
    rw [List.nil_append, endsTag, readsLiteral, if_neg hfront, Option.not_isSome]

/-! ## Places in bytes -/

theorem endsTag_eq_false_iff {guard : Bool} {front rest : List Char} :
    endsTag guard front rest = false ↔
      InLiteral front ∧ (guard = false → rest.head? ≠ some '<') := by
  rw [endsTag, Bool.or_eq_false_iff, Bool.not_eq_false', readsLiteral_iff, splitsLiteral, meetsTag]
  cases guard <;> simp

/-- The place of a tag's end is that of the first `>` that ends it. -/
theorem tagEndByte_eq_some_iff {guard : Bool} {body : List Char} {i : Nat} :
    tagEndByte guard body = some i ↔
      ∃ front rest, body = front ++ '>' :: rest ∧ byteSize front = i ∧
        endsTag guard front rest = true ∧
        ∀ before after, body = before ++ '>' :: after → byteSize before < i →
          endsTag guard before after = false := by
  rw [tagEndByte, findTagEnd_eq_firstEnd, Option.map_eq_some_iff]
  have hplace : ∀ {front rest before after : List Char}, body = front ++ '>' :: rest →
      body = before ++ '>' :: after →
      (byteSize before < byteSize front ↔ before.length < front.length) := by
    intro front rest before after hfront hbefore
    exact byteSize_lt_iff ⟨_, hbefore.symm⟩ ⟨_, hfront.symm⟩
  constructor
  · rintro ⟨n, hn, rfl⟩
    obtain ⟨front, rest, hbody, rfl, hends, hfirst⟩ := firstEnd_eq_some_iff.1 hn
    have htake : body.take front.length = front := by rw [hbody, List.take_left]
    refine ⟨front, rest, hbody, by rw [htake], hends, ?_⟩
    intro before after hcut hlt
    rw [htake, hplace hbody hcut] at hlt
    exact hfirst before after hcut hlt
  · rintro ⟨front, rest, hbody, rfl, hends, hfirst⟩
    have htake : body.take front.length = front := by rw [hbody, List.take_left]
    refine ⟨front.length, ?_, by rw [htake]⟩
    refine firstEnd_eq_some_iff.2 ⟨front, rest, hbody, rfl, hends, ?_⟩
    intro before after hcut hlt
    exact hfirst before after hcut ((hplace hbody hcut).2 hlt)

/-- A `>` that ends a guarded tag ends any tag. -/
theorem endsTag_of_guarded {front rest : List Char} (h : endsTag true front rest = true) :
    endsTag false front rest = true := by
  rw [endsTag, splitsLiteral_guarded, Bool.or_false] at h
  rw [endsTag, h, Bool.true_or]

/-- Guarding never ends a tag earlier.  Where a tag that is not guarded ends elsewhere, it ends at a
`>` with a `<` behind it.  The end of a tag, guarded or not, is the place of the first `>` of its
body that does not stand in a literal or, not guarded, has a `<` behind it. -/
theorem tagEndByte_guarded (body : List Char) :
    (∀ i, tagEndByte true body = some i → ∃ j ≤ i, tagEndByte false body = some j) ∧
      (∀ j, tagEndByte false body = some j → tagEndByte true body ≠ some j →
        ∃ front rest, body = front ++ '>' :: '<' :: rest ∧ byteSize front = j) ∧
      ∀ guard i, tagEndByte guard body = some i ↔
        ∃ front rest, body = front ++ '>' :: rest ∧ byteSize front = i ∧
          ¬(InLiteral front ∧ (guard = false → rest.head? ≠ some '<')) ∧
          ∀ before after, body = before ++ '>' :: after → byteSize before < i →
            InLiteral before ∧ (guard = false → after.head? ≠ some '<') := by
  refine ⟨?_, ?_, ?_⟩
  · intro i hi
    rw [tagEndByte, findTagEnd_eq_firstEnd, Option.map_eq_some_iff] at hi
    obtain ⟨n, hn, rfl⟩ := hi
    obtain ⟨m, hle, hm⟩ := exists_firstEnd_le (fun _ _ => endsTag_of_guarded) hn
    refine ⟨byteSize (body.take m), ?_, by rw [tagEndByte, findTagEnd_eq_firstEnd, hm]; rfl⟩
    exact byteSize_le_of_prefix (List.take_prefix_take_left hle)
  · intro j hj hne
    obtain ⟨front, rest, hbody, rfl, hends, hfirst⟩ := tagEndByte_eq_some_iff.1 hj
    have hguarded : endsTag true front rest = false := by
      rw [Bool.eq_false_iff]
      intro hpass
      apply hne
      refine tagEndByte_eq_some_iff.2 ⟨front, rest, hbody, rfl, hpass, ?_⟩
      intro before after hcut hlt
      have hgo := hfirst before after hcut hlt
      exact Bool.eq_false_iff.2 fun hends => by simp [endsTag_of_guarded hends] at hgo
    have hmeets : meetsTag rest = true := by
      rw [endsTag, splitsLiteral_guarded, Bool.or_false] at hguarded
      rwa [endsTag, hguarded, Bool.false_or] at hends
    obtain ⟨rest, rfl⟩ := exists_of_meetsTag hmeets
    exact ⟨front, rest, hbody, rfl⟩
  · intro guard i
    simp only [← endsTag_eq_false_iff, Bool.not_eq_false]
    exact tagEndByte_eq_some_iff

/-- A value with `><` in it: guarded the tag ends behind the value, and not guarded in it, at the
second `>`. -/
theorem tagEndByte_guarded_value :
    tagEndByte true "é t='x>y><'>".toList = some 12 ∧
      tagEndByte false "é t='x>y><'>".toList = some 9 ∧
      (∃ j ≤ 12, tagEndByte false "é t='x>y><'>".toList = some j) ∧
      ∃ front rest, "é t='x>y><'>".toList = front ++ '>' :: '<' :: rest ∧ byteSize front = 9 := by
  have hguarded : tagEndByte true "é t='x>y><'>".toList = some 12 := by decide +kernel
  have hplain : tagEndByte false "é t='x>y><'>".toList = some 9 := by decide +kernel
  have h := tagEndByte_guarded "é t='x>y><'>".toList
  exact ⟨hguarded, hplain, h.1 12 hguarded, h.2.1 9 hplain (by rw [hguarded]; decide)⟩

end Markup

end PrettyMarkup
