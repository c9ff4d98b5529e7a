import PrettyMarkup.Proofs.Blanks

/-!
# Texts alike up to their blanks

Two texts are respaced forms of each other if they have the same characters that are kept,
and blanks at the same places between them, whichever blanks and however many.  Folding a
text respaces it.  A scanner that looks at blanks only as blanks cuts respaced texts alike;
the laws here say what the cuts of a text share with the cuts of its respaced forms.
-/

namespace PrettyMarkup

namespace Text

/-- The texts differ in which blanks stand in a run of blanks, and in nothing else. -/
inductive Respaced : List Char → List Char → Prop
  | nil : Respaced [] []
  | char {c : Char} {s t : List Char} (hc : isBlank c = false) (h : Respaced s t) :
      Respaced (c :: s) (c :: t)
  | run {v w s t : List Char} (hv : v ≠ []) (hw : w ≠ []) (hvb : AllBlank v)
      (hwb : AllBlank w) (h : Respaced s t) : Respaced (v ++ s) (w ++ t)

namespace Respaced

theorem refl (text : List Char) : Respaced text text := by
  induction text with
  | nil => exact .nil
  | cons c text ih =>
      cases hc : isBlank c with
      | false => exact .char hc ih
      | true =>
          have hrun : AllBlank [c] := allBlank_cons.2 ⟨hc, allBlank_nil⟩
          exact .run (by simp) (by simp) hrun hrun ih

theorem symm {a b : List Char} (h : Respaced a b) : Respaced b a := by
  induction h with
  | nil => exact .nil
  | char hc _ ih => exact .char hc ih
  | run hv hw hvb hwb _ ih => exact .run hw hv hwb hvb ih

theorem append {a b s t : List Char} (h : Respaced a b) (hst : Respaced s t) :
    Respaced (a ++ s) (b ++ t) := by
  induction h with
  | nil => exact hst
  | char hc _ ih => exact .char hc ih
  | run hv hw hvb hwb _ ih =>
      rw [List.append_assoc, List.append_assoc]
      exact .run hv hw hvb hwb ih

/-- Folding respaces. -/
theorem foldRuns (text : List Char) : Respaced text (Text.foldRuns text) := by
  fun_induction Text.foldRuns text with
  | case1 => exact .nil
  | case2 c rest hc ih =>
      have hrun := allBlank_run hc rest
      have hne : foldRun (c :: rest.takeWhile isBlank) ≠ [] := foldRun_ne_nil (by simp)
      have hfold := Respaced.run (by simp) hne hrun (allBlank_foldRun hrun) ih
      rwa [cons_takeWhile_append_dropWhile] at hfold
  | case3 c rest hc ih => exact .char (by simpa using hc) ih

theorem eraseBlanks_eq {a b : List Char} (h : Respaced a b) : eraseBlanks a = eraseBlanks b := by
  induction h with
  | nil => rfl
  | char hc _ ih => rw [eraseBlanks_cons hc, eraseBlanks_cons hc, ih]
  | run _ _ hvb hwb _ ih =>
      rw [eraseBlanks_append, eraseBlanks_append, eraseBlanks_eq_nil_iff.2 hvb,
        eraseBlanks_eq_nil_iff.2 hwb, ih]

theorem nil_left {b : List Char} (h : Respaced [] b) : b = [] := by
  generalize ha : ([] : List Char) = a at h
  cases h with
  | nil => rfl
  | char => simp at ha
  | run hv => exact absurd (List.append_eq_nil_iff.1 ha.symm).1 hv

theorem eq_nil_iff {a b : List Char} (h : Respaced a b) : a = [] ↔ b = [] := by
  constructor
  · rintro rfl
    exact h.nil_left
  · rintro rfl
    exact h.symm.nil_left

/-- A character that is kept at the front of a text is at the front of its respaced forms. -/
theorem exists_cons {c : Char} {a b : List Char} (h : Respaced (c :: a) b)
    (hc : isBlank c = false) : ∃ b', b = c :: b' ∧ Respaced a b' := by
  generalize ha : c :: a = s at h
  cases h with
  | nil => simp at ha
  | char hd hst =>
      simp only [List.cons.injEq] at ha
      obtain ⟨rfl, rfl⟩ := ha
      exact ⟨_, rfl, hst⟩
  | @run v w s t hv hw hvb hwb hst =>
      cases v with
      | nil => exact absurd rfl hv
      | cons d v =>
          simp only [List.cons_append, List.cons.injEq] at ha
          have hd : isBlank d = true := (allBlank_cons.1 hvb).1
          rw [← ha.1, hc] at hd
          simp at hd

/-- So is a blank, though not the same one. -/
theorem exists_cons_of_isBlank {c : Char} {a b : List Char} (h : Respaced (c :: a) b)
    (hc : isBlank c = true) : ∃ d b', b = d :: b' ∧ isBlank d = true := by
  cases b with
  | nil => exact absurd h.symm.nil_left (by simp)
  | cons d b' =>
      cases hd : isBlank d with
      | true => exact ⟨d, b', rfl, hd⟩
      | false =>
          obtain ⟨a', ha, -⟩ := h.symm.exists_cons hd
          rw [(List.cons.inj ha).1, hd] at hc
          simp at hc

theorem head?_eq_some_iff {a b : List Char} (h : Respaced a b) {c : Char}
    (hc : isBlank c = false) : a.head? = some c ↔ b.head? = some c := by
  have hhead : ∀ {s t : List Char}, Respaced s t → s.head? = some c → t.head? = some c := by
    intro s t hst hs
    obtain ⟨rest, rfl⟩ := List.head?_eq_some_iff.1 hs
    obtain ⟨t', rfl, -⟩ := hst.exists_cons hc
    rfl
  exact ⟨hhead h, hhead h.symm⟩

/-- The same at the end of a text. -/
theorem exists_concat {c : Char} {a b : List Char} (h : Respaced (a ++ [c]) b)
    (hc : isBlank c = false) : ∃ b', b = b' ++ [c] ∧ Respaced a b' := by
  generalize ha : a ++ [c] = s at h
  induction h generalizing a with
  | nil => simp at ha
  | @char d s t hd hst ih =>
      cases a with
      | nil =>
          simp only [List.nil_append, List.cons.injEq] at ha
          obtain ⟨rfl, rfl⟩ := ha
          exact ⟨[], by rw [hst.nil_left]; rfl, .nil⟩
      | cons e a =>
          simp only [List.cons_append, List.cons.injEq] at ha
          obtain ⟨b', rfl, hb'⟩ := ih ha.2
          exact ⟨d :: b', rfl, ha.1.symm ▸ .char hd hb'⟩
  | @run v w s t hv hw hvb hwb hst ih =>
      rcases List.eq_nil_or_concat s with rfl | ⟨s', d, rfl⟩
      · -- The last character is kept, so it does not stand in the run at the front.
        have hmem : c ∈ v := by
          rw [List.append_nil] at ha
          simp [← ha]
        rw [hvb c hmem] at hc
        simp at hc
      · rw [List.concat_eq_append, ← List.append_assoc] at ha
        obtain ⟨rfl, hd⟩ := List.append_inj' ha rfl
        obtain ⟨b', rfl, hb'⟩ := ih (by rw [List.concat_eq_append, hd])
        exact ⟨w ++ b', (List.append_assoc ..).symm, .run hv hw hvb hwb hb'⟩

/-! ## Cuts of respaced texts -/

/-- A front that holds no blanks is found at the front of both texts. -/
theorem isPrefixOf_eq {a b : List Char} (h : Respaced a b) {front : List Char}
    (hfront : ∀ c ∈ front, isBlank c = false) : front.isPrefixOf a = front.isPrefixOf b := by
  induction front generalizing a b with
  | nil => simp
  | cons c front ih =>
      obtain ⟨hc, hfront⟩ := List.forall_mem_cons.1 hfront
      by_cases ha : a.head? = some c
      · obtain ⟨a', rfl⟩ := List.head?_eq_some_iff.1 ha
        obtain ⟨b', rfl, hab⟩ := h.exists_cons hc
        simpa using ih hab hfront
      · have hb : b.head? ≠ some c := mt (h.head?_eq_some_iff hc).2 ha
        have hnot : ∀ {s : List Char}, s.head? ≠ some c → (c :: front).isPrefixOf s = false := by
          intro s hs
          cases s with
          | nil => rfl
          | cons d s =>
              have hcd : (c == d) = false := by
                rw [beq_eq_false_iff_ne]
                rintro rfl
                exact hs rfl
              simp [List.isPrefixOf, hcd]
        rw [hnot ha, hnot hb]

theorem exists_append {a b front : List Char} (h : Respaced (front ++ a) b)
    (hfront : ∀ c ∈ front, isBlank c = false) : ∃ b', b = front ++ b' ∧ Respaced a b' := by
  induction front generalizing b with
  | nil => exact ⟨b, rfl, h⟩
  | cons c front ih =>
      obtain ⟨hc, hfront⟩ := List.forall_mem_cons.1 hfront
      obtain ⟨b', rfl, hb'⟩ := h.exists_cons hc
      obtain ⟨b', rfl, hab⟩ := ih hb' hfront
      exact ⟨b', rfl, hab⟩

section Predicate

variable {p : Char → Bool} {a b : List Char}

/-- Where a predicate holds of every blank, the first character on which it fails cuts respaced
texts alike. -/
theorem takeWhile_dropWhile_of_pos (h : Respaced a b) (hp : ∀ c, isBlank c = true → p c = true) :
    Respaced (a.takeWhile p) (b.takeWhile p) ∧ Respaced (a.dropWhile p) (b.dropWhile p) := by
  induction h with
  | nil => exact ⟨.nil, .nil⟩
  | @char c s t hc hst ih =>
      cases hpc : p c with
      | true => simpa [hpc] using ⟨Respaced.char hc ih.1, ih.2⟩
      | false => simpa [hpc] using ⟨Respaced.nil, Respaced.char hc hst⟩
  | @run v w s t hv hw hvb hwb hst ih =>
      have hvp : ∀ c ∈ v, p c = true := fun c hc => hp c (hvb c hc)
      have hwp : ∀ c ∈ w, p c = true := fun c hc => hp c (hwb c hc)
      rw [List.takeWhile_append_of_pos hvp, List.takeWhile_append_of_pos hwp,
        List.dropWhile_append_of_pos hvp, List.dropWhile_append_of_pos hwp]
      exact ⟨.run hv hw hvb hwb ih.1, ih.2⟩

/-- The first blank cuts respaced texts alike, and what stands before it is the same. -/
theorem takeWhile_dropWhile_kept (h : Respaced a b) :
    a.takeWhile (fun c => !isBlank c) = b.takeWhile (fun c => !isBlank c) ∧
      Respaced (a.dropWhile fun c => !isBlank c) (b.dropWhile fun c => !isBlank c) := by
  induction h with
  | nil => exact ⟨rfl, .nil⟩
  | @char c s t hc hst ih => simpa [hc] using ih
  | @run v w s t hv hw hvb hwb hst ih =>
      obtain ⟨c, v, rfl⟩ := List.exists_cons_of_ne_nil hv
      obtain ⟨d, w, rfl⟩ := List.exists_cons_of_ne_nil hw
      have hc : isBlank c = true := (allBlank_cons.1 hvb).1
      have hd : isBlank d = true := (allBlank_cons.1 hwb).1
      simpa [hc, hd] using Respaced.run hv hw hvb hwb hst

end Predicate

end Respaced

end Text

end PrettyMarkup
