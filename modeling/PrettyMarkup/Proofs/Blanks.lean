import Mathlib.Data.List.TakeWhile
import PrettyMarkup.Text.Folding

/-!
# Trimming and folding blanks

A text is its trimmed text with blanks around it.  Folding goes run by run, so it does the
same to the parts of a text that is cut in front of a character that is not blank, and it
does nothing to a text that is folded already.
-/

namespace PrettyMarkup

namespace Text

/-- A text without any character that is kept. -/
def AllBlank (text : List Char) : Prop := ∀ c ∈ text, isBlank c = true

instance (text : List Char) : Decidable (AllBlank text) :=
  decidable_of_iff (text.all isBlank = true) List.all_eq_true

/-- A text of which every character is kept. -/
theorem isBlank_eq_false_of_all {text : List Char} (h : text.all (fun c => !isBlank c) = true) :
    ∀ c ∈ text, isBlank c = false := by
  intro c hc
  simpa using List.all_eq_true.1 h c hc

theorem allBlank_nil : AllBlank [] := by simp [AllBlank]

theorem allBlank_cons {c : Char} {text : List Char} :
    AllBlank (c :: text) ↔ isBlank c = true ∧ AllBlank text := by
  simp [AllBlank]

theorem allBlank_append {s t : List Char} : AllBlank (s ++ t) ↔ AllBlank s ∧ AllBlank t :=
  List.forall_mem_append

theorem allBlank_takeWhile (text : List Char) : AllBlank (text.takeWhile isBlank) := by
  intro c hc
  exact List.mem_takeWhile_imp hc

/-- A blank and the blanks behind it are a run. -/
theorem allBlank_run {c : Char} (hc : isBlank c = true) (rest : List Char) :
    AllBlank (c :: rest.takeWhile isBlank) :=
  allBlank_cons.2 ⟨hc, allBlank_takeWhile rest⟩

theorem AllBlank.reverse {text : List Char} (h : AllBlank text) : AllBlank text.reverse := by
  intro c hc
  exact h c (List.mem_reverse.1 hc)

theorem allBlank_replicate_flatten {unit : List Char} (h : AllBlank unit) (n : Nat) :
    AllBlank (List.replicate n unit).flatten := by
  intro c hc
  obtain ⟨part, hpart, hc⟩ := List.mem_flatten.1 hc
  rw [List.eq_of_mem_replicate hpart] at hc
  exact h c hc

theorem ne_of_isBlank {c d : Char} (hc : isBlank c = true) (hd : isBlank d = false) : c ≠ d := by
  rintro rfl
  rw [hc] at hd
  simp at hd

theorem isLineBreak_eq_false {c : Char} (h : isBlank c = false) : isLineBreak c = false := by
  rw [Bool.eq_false_iff]
  intro hbreak
  exact ne_of_isBlank (isBlank_of_isLineBreak hbreak) h rfl

theorem not_mem_of_allBlank {run : List Char} (h : AllBlank run) {c : Char}
    (hc : isBlank c = false) : c ∉ run := by
  intro hmem
  exact ne_of_isBlank (h c hmem) hc rfl

/-! ## Cutting -/

section Cutting

variable {p : Char → Bool}

/-- Behind the characters that pass comes one that does not. -/
theorem eq_false_of_mem_head?_dropWhile (p : Char → Bool) (text : List Char) {c : Char}
    (h : c ∈ (text.dropWhile p).head?) : p c = false := by
  have hnot := List.head?_dropWhile_not p text
  rw [Option.mem_def.1 h] at hnot
  simpa using hnot

/-- A text is cut behind a front that passes, if what follows does not. -/
theorem takeWhile_dropWhile_append {front rest : List Char} (hfront : ∀ c ∈ front, p c = true)
    (hrest : ∀ c ∈ rest.head?, p c = false) :
    (front ++ rest).takeWhile p = front ∧ (front ++ rest).dropWhile p = rest := by
  rw [List.takeWhile_append_of_pos hfront, List.dropWhile_append_of_pos hfront]
  cases rest with
  | nil => simp
  | cons d rest => simp [hrest d (by simp)]

theorem cons_takeWhile_append_dropWhile (p : Char → Bool) (c : Char) (rest : List Char) :
    (c :: rest.takeWhile p) ++ rest.dropWhile p = c :: rest := by
  rw [List.cons_append, List.takeWhile_append_dropWhile]

/-- A text that starts with another character does not start with the front. -/
theorem isPrefixOf_eq_false {c : Char} {text : List Char} (h : text.head? ≠ some c)
    (front : List Char) : (c :: front).isPrefixOf text = false := by
  cases text with
  | nil => rfl
  | cons d text =>
      have hcd : c ≠ d := by
        rintro rfl
        exact h rfl
      simp [List.isPrefixOf, hcd]

theorem concat_suffix_concat_iff {front text : List Char} {c d : Char} :
    front ++ [c] <:+ text ++ [d] ↔ front <:+ text ∧ c = d := by
  simp [← List.reverse_prefix, List.cons_prefix_cons, and_comm]

end Cutting

/-! ## What is kept -/

theorem eraseBlanks_eq_nil_iff {text : List Char} : eraseBlanks text = [] ↔ AllBlank text := by
  simp [eraseBlanks, AllBlank, List.filter_eq_nil_iff]

theorem eraseBlanks_cons {c : Char} (h : isBlank c = false) (text : List Char) :
    eraseBlanks (c :: text) = c :: eraseBlanks text := by
  simp [eraseBlanks, h]

@[simp] theorem eraseBlanks_reverse (text : List Char) :
    eraseBlanks text.reverse = (eraseBlanks text).reverse := by
  simp [eraseBlanks]

/-! ## Trimming -/

/-- The first character of a text without its leading blanks is not blank. -/
theorem isBlank_of_head?_trimStart (text : List Char) {c : Char}
    (h : (trimStart text).head? = some c) : isBlank c = false :=
  eq_false_of_mem_head?_dropWhile isBlank text h

theorem trimStart_append_of_allBlank {blanks : List Char} (h : AllBlank blanks)
    (text : List Char) : trimStart (blanks ++ text) = trimStart text := by
  rw [trimStart, List.dropWhile_append_of_pos h, ← trimStart]

theorem trimStart_eq_nil_iff {text : List Char} : trimStart text = [] ↔ AllBlank text := by
  rw [trimStart, List.dropWhile_eq_nil_iff]
  exact Iff.rfl

theorem trimStart_cons {c : Char} (h : isBlank c = false) (text : List Char) :
    trimStart (c :: text) = c :: text := by
  rw [trimStart, List.dropWhile_cons_of_neg (by simp [h])]

theorem trimEnd_append_of_allBlank {blanks : List Char} (h : AllBlank blanks)
    (text : List Char) : trimEnd (text ++ blanks) = trimEnd text := by
  rw [trimEnd, List.reverse_append, trimStart_append_of_allBlank h.reverse, ← trimEnd]

theorem trimEnd_concat {c : Char} (h : isBlank c = false) (text : List Char) :
    trimEnd (text ++ [c]) = text ++ [c] := by
  rw [trimEnd, List.reverse_append, List.reverse_singleton, List.singleton_append,
    trimStart_cons h]
  simp

/-- Behind the trimmed text there are blanks only. -/
theorem exists_trimEnd_append (text : List Char) :
    ∃ blanks, AllBlank blanks ∧ text = trimEnd text ++ blanks := by
  refine ⟨(text.reverse.takeWhile isBlank).reverse, (allBlank_takeWhile _).reverse, ?_⟩
  have hcut := takeWhile_append_trimStart text.reverse
  rw [trimEnd, ← List.reverse_append, hcut, List.reverse_reverse]

theorem trimEnd_eq_nil_iff {text : List Char} : trimEnd text = [] ↔ AllBlank text := by
  rw [trimEnd, List.reverse_eq_nil_iff, trimStart_eq_nil_iff]
  constructor
  · intro h
    simpa using h.reverse
  · exact AllBlank.reverse

/-- A text without trailing blanks is empty or ends with a character that is kept. -/
theorem trimEnd_eq_nil_or_concat (text : List Char) :
    trimEnd text = [] ∨ ∃ front c, trimEnd text = front ++ [c] ∧ isBlank c = false := by
  cases hrest : trimStart text.reverse with
  | nil => simp [trimEnd, hrest]
  | cons c rest =>
      refine Or.inr ⟨rest.reverse, c, by simp [trimEnd, hrest], ?_⟩
      exact isBlank_of_head?_trimStart text.reverse (by rw [hrest]; rfl)

theorem trimEnd_trimEnd (text : List Char) : trimEnd (trimEnd text) = trimEnd text := by
  rcases trimEnd_eq_nil_or_concat text with h | ⟨front, c, h, hc⟩
  · rw [h, trimEnd_nil]
  · rw [h, trimEnd_concat hc]

/-- Trimming the end leaves the first character, unless nothing is left. -/
theorem trimEnd_cons {c : Char} (h : isBlank c = false) (text : List Char) :
    trimEnd (c :: text) = c :: trimEnd text := by
  obtain ⟨blanks, hblanks, htext⟩ := exists_trimEnd_append text
  calc
    trimEnd (c :: text) = trimEnd ((c :: trimEnd text) ++ blanks) := by
      rw [List.cons_append, ← htext]
    _ = trimEnd (c :: trimEnd text) := trimEnd_append_of_allBlank hblanks _
    _ = c :: trimEnd text := by
      rcases trimEnd_eq_nil_or_concat text with hnil | ⟨front, d, hcat, hd⟩
      · rw [hnil]
        exact trimEnd_concat h []
      · rw [hcat, ← List.cons_append, trimEnd_concat hd]

@[simp] theorem eraseBlanks_trimStart (text : List Char) :
    eraseBlanks (trimStart text) = eraseBlanks text := by
  have hcut := congrArg eraseBlanks (takeWhile_append_trimStart text)
  rwa [eraseBlanks_append, eraseBlanks_eq_nil_iff.2 (allBlank_takeWhile text),
    List.nil_append] at hcut

@[simp] theorem eraseBlanks_trimEnd (text : List Char) :
    eraseBlanks (trimEnd text) = eraseBlanks text := by
  simp [trimEnd]

@[simp] theorem eraseBlanks_trim (text : List Char) :
    eraseBlanks (trim text) = eraseBlanks text := by
  simp [trim]

/-- The first character that is kept is the first one after the leading blanks. -/
theorem head?_trimStart (text : List Char) :
    (trimStart text).head? = (eraseBlanks text).head? := by
  rw [← eraseBlanks_trimStart]
  cases hrest : trimStart text with
  | nil => rfl
  | cons c rest =>
      have hc : isBlank c = false :=
        isBlank_of_head?_trimStart text (by rw [hrest]; rfl)
      rw [eraseBlanks_cons hc]
      rfl

theorem trim_append_of_allBlank {blanks : List Char} (h : AllBlank blanks) (text : List Char) :
    trim (blanks ++ text) = trim text := by
  rw [trim, trimStart_append_of_allBlank h, ← trim]

theorem trim_append_blanks {blanks : List Char} (h : AllBlank blanks) (text : List Char) :
    trim (text ++ blanks) = trim text := by
  rw [trim, trim, trimStart, List.dropWhile_append, ← trimStart]
  split
  · rename_i hnil
    rw [List.isEmpty_iff.1 hnil, ← trimStart, trimStart_eq_nil_iff.2 h]
  · exact trimEnd_append_of_allBlank h _

theorem trim_trim (text : List Char) : trim (trim text) = trim text := by
  cases hstart : trimStart text with
  | nil => simp [trim, hstart]
  | cons c rest =>
      have hc : isBlank c = false :=
        isBlank_of_head?_trimStart text (by rw [hstart]; rfl)
      have htrim : trim text = c :: trimEnd rest := by rw [trim, hstart, trimEnd_cons hc]
      rw [htrim, trim, trimStart_cons hc, trimEnd_cons hc, trimEnd_trimEnd]

theorem mem_of_mem_trimEnd {text : List Char} {c : Char} (h : c ∈ trimEnd text) : c ∈ text := by
  rw [trimEnd, List.mem_reverse, trimStart] at h
  simpa using (List.dropWhile_sublist isBlank).mem h

theorem mem_of_mem_trim {text : List Char} {c : Char} (h : c ∈ trim text) : c ∈ text :=
  (List.dropWhile_sublist isBlank).mem (mem_of_mem_trimEnd h)

/-- A trimmed text has no blanks at its start. -/
theorem trimStart_eq_self {text : List Char} (h : trim text = text) : trimStart text = text := by
  cases hstart : trimStart text with
  | nil => rw [← h, trim, hstart, trimEnd_nil]
  | cons c rest =>
      have hc : isBlank c = false := isBlank_of_head?_trimStart text (by rw [hstart]; rfl)
      rw [trim, hstart, trimEnd_cons hc] at h
      rw [← hstart, ← h, trimStart_cons hc]

/-! ## Folding -/

theorem foldRun_ne_nil {run : List Char} (h : run ≠ []) : foldRun run ≠ [] := by
  rw [foldRun]
  split
  · simp
  · exact h

theorem allBlank_foldRun {run : List Char} (h : AllBlank run) : AllBlank (foldRun run) := by
  rw [foldRun]
  split
  · exact allBlank_cons.2 ⟨by decide, allBlank_nil⟩
  · exact h

theorem foldRun_foldRun (run : List Char) : foldRun (foldRun run) = foldRun run := by
  by_cases h : run.any isLineBreak = true
  · rw [foldRun, foldRun, if_pos h]
    rfl
  · simp [foldRun, h]

theorem isLineBreak_of_mem_foldRun {run : List Char} {c : Char} (h : c ∈ foldRun run) :
    isLineBreak c = false := by
  rw [foldRun] at h
  split at h
  · rw [List.mem_singleton.1 h]
    decide
  · rename_i hnone
    exact Bool.eq_false_iff.2 fun hbreak => hnone (List.any_eq_true.2 ⟨c, h, hbreak⟩)

/-- A run of blanks up to a character that is kept is folded by itself. -/
theorem foldRuns_run {run rest : List Char} (hne : run ≠ []) (hrun : AllBlank run)
    (hrest : ∀ c ∈ rest.head?, isBlank c = false) :
    foldRuns (run ++ rest) = foldRun run ++ foldRuns rest := by
  cases run with
  | nil => exact absurd rfl hne
  | cons c run =>
      obtain ⟨hc, hrun⟩ := allBlank_cons.1 hrun
      obtain ⟨htake, hdrop⟩ := takeWhile_dropWhile_append hrun hrest
      rw [List.cons_append, foldRuns_blank hc, htake, hdrop]

/-- Blanks without line breaks stay as they are. -/
theorem foldRuns_eq_self {text : List Char} (h : text.any isLineBreak = false) :
    foldRuns text = text := by
  fun_induction foldRuns text with
  | case1 => rfl
  | case2 c rest hc ih =>
      rw [← cons_takeWhile_append_dropWhile isBlank c rest, List.any_append,
        Bool.or_eq_false_iff] at h
      rw [ih h.2, foldRun, if_neg (by simp [h.1]), cons_takeWhile_append_dropWhile]
  | case3 c rest hc ih =>
      rw [List.any_cons, Bool.or_eq_false_iff] at h
      rw [ih h.2]

theorem head?_foldRuns {text : List Char} (h : ∀ c ∈ text.head?, isBlank c = false) :
    (foldRuns text).head? = text.head? := by
  cases text with
  | nil => rw [foldRuns_nil]
  | cons c rest => rw [foldRuns_cons (h c (by simp))]; rfl

/-- Folding goes part by part where the second part does not start with a blank. -/
theorem foldRuns_append (text : List Char) {rest : List Char}
    (h : ∀ c ∈ rest.head?, isBlank c = false) :
    foldRuns (text ++ rest) = foldRuns text ++ foldRuns rest := by
  fun_induction foldRuns text with
  | case1 => rfl
  | case2 c text hc ih =>
      have hhead : ∀ d ∈ (text.dropWhile isBlank ++ rest).head?, isBlank d = false := by
        intro d hd
        cases hdrop : text.dropWhile isBlank with
        | nil => exact h d (by simpa [hdrop] using hd)
        | cons e tail =>
            rw [hdrop, List.cons_append] at hd
            exact eq_false_of_mem_head?_dropWhile isBlank text (by rw [hdrop]; exact hd)
      calc
        foldRuns (c :: text ++ rest)
          = foldRuns ((c :: text.takeWhile isBlank) ++ (text.dropWhile isBlank ++ rest)) := by
            rw [← List.append_assoc, cons_takeWhile_append_dropWhile]
        _ = foldRun (c :: text.takeWhile isBlank) ++ foldRuns (text.dropWhile isBlank) ++
              foldRuns rest := by
            rw [foldRuns_run (by simp) (allBlank_run hc text) hhead, ih, List.append_assoc]
  | case3 c text hc ih =>
      rw [List.cons_append, foldRuns_cons (by simpa using hc), ih, List.cons_append]

theorem foldRuns_concat {c : Char} (h : isBlank c = false) (text : List Char) :
    foldRuns (text ++ [c]) = foldRuns text ++ [c] := by
  rw [foldRuns_append text (by simp [h]), foldRuns_cons h, foldRuns_nil]

/-- Folding goes part by part where the first part does not end with a blank. -/
theorem foldRuns_concat_append {c : Char} (h : isBlank c = false) (text rest : List Char) :
    foldRuns (text ++ [c] ++ rest) = foldRuns (text ++ [c]) ++ foldRuns rest := by
  rw [foldRuns_concat h, List.append_assoc, List.singleton_append,
    foldRuns_append text (by simp [h]), foldRuns_cons h, List.append_assoc, List.singleton_append]

theorem foldRuns_foldRuns (text : List Char) : foldRuns (foldRuns text) = foldRuns text := by
  fun_induction foldRuns text with
  | case1 => exact foldRuns_nil
  | case2 c text hc ih =>
      have hrun : AllBlank (foldRun (c :: text.takeWhile isBlank)) :=
        allBlank_foldRun (allBlank_run hc text)
      have hkept : ∀ d ∈ (text.dropWhile isBlank).head?, isBlank d = false :=
        fun d => eq_false_of_mem_head?_dropWhile isBlank text
      have hhead : ∀ d ∈ (foldRuns (text.dropWhile isBlank)).head?, isBlank d = false := by
        rw [head?_foldRuns hkept]
        exact hkept
      rw [foldRuns_run (foldRun_ne_nil (by simp)) hrun hhead, foldRun_foldRun, ih]
  | case3 c text hc ih => rw [foldRuns_cons (by simpa using hc), ih]

/-- Folding and dropping the blanks at the end can change places. -/
theorem foldRuns_trimEnd (text : List Char) :
    foldRuns (trimEnd text) = trimEnd (foldRuns text) := by
  obtain ⟨blanks, hblanks, htext⟩ := exists_trimEnd_append text
  have hfolded : AllBlank (foldRuns blanks) := by
    rwa [← eraseBlanks_eq_nil_iff, eraseBlanks_foldRuns, eraseBlanks_eq_nil_iff]
  rcases trimEnd_eq_nil_or_concat text with hnil | ⟨front, c, hcat, hc⟩
  · rw [hnil, List.nil_append] at htext
    rw [hnil, htext, foldRuns_nil, trimEnd_eq_nil_iff.2 hfolded]
  · rw [hcat] at htext ⊢
    calc
      foldRuns (front ++ [c]) = foldRuns front ++ [c] := foldRuns_concat hc front
      _ = trimEnd (foldRuns front ++ [c]) := (trimEnd_concat hc _).symm
      _ = trimEnd (foldRuns (front ++ [c]) ++ foldRuns blanks) := by
        rw [trimEnd_append_of_allBlank hfolded, foldRuns_concat hc]
      _ = trimEnd (foldRuns text) := by rw [htext, foldRuns_concat_append hc]

/-- Blanks that hold a line break are folded to one space, with all blanks around them. -/
theorem foldRuns_append_run {run : List Char} (hrun : AllBlank run)
    (hbreak : run.any isLineBreak = true) (front rest : List Char) :
    foldRuns (front ++ (run ++ rest)) =
      foldRuns (trimEnd front) ++ ' ' :: foldRuns (trimStart rest) := by
  obtain ⟨blanks, hblanks, hfront⟩ := exists_trimEnd_append front
  have hall : AllBlank (blanks ++ run ++ rest.takeWhile isBlank) :=
    allBlank_append.2 ⟨allBlank_append.2 ⟨hblanks, hrun⟩, allBlank_takeWhile rest⟩
  have hne : blanks ++ run ++ rest.takeWhile isBlank ≠ [] := by
    intro hnil
    rw [List.append_eq_nil_iff, List.append_eq_nil_iff] at hnil
    rw [hnil.1.2] at hbreak
    simp at hbreak
  have hspace : foldRun (blanks ++ run ++ rest.takeWhile isBlank) = [' '] := by
    rw [foldRun, if_pos]
    simp [hbreak]
  have hfolded : foldRuns ((blanks ++ run ++ rest.takeWhile isBlank) ++ trimStart rest) =
      ' ' :: foldRuns (trimStart rest) := by
    rw [foldRuns_run hne hall, hspace, List.singleton_append]
    intro c hc
    exact isBlank_of_head?_trimStart rest hc
  have hcat : front ++ (run ++ rest) =
      trimEnd front ++ ((blanks ++ run ++ rest.takeWhile isBlank) ++ trimStart rest) := by
    have hrest := takeWhile_append_trimStart rest
    calc
      front ++ (run ++ rest) = (trimEnd front ++ blanks) ++ (run ++ rest) := by rw [← hfront]
      _ = (trimEnd front ++ blanks) ++ (run ++ (rest.takeWhile isBlank ++ trimStart rest)) := by
        rw [hrest]
      _ = _ := by simp only [List.append_assoc]
  rw [hcat]
  rcases trimEnd_eq_nil_or_concat front with hnil | ⟨text, c, hkept, hc⟩
  · rw [hnil, List.nil_append, hfolded, foldRuns_nil, List.nil_append]
  · rw [hkept, foldRuns_concat_append hc, hfolded]

/-- No line break is left where runs are folded. -/
theorem isLineBreak_of_mem_foldRuns {text : List Char} {c : Char} (h : c ∈ foldRuns text) :
    isLineBreak c = false := by
  fun_induction foldRuns text with
  | case1 => simp at h
  | case2 d rest hd ih =>
      rcases List.mem_append.1 h with h | h
      · exact isLineBreak_of_mem_foldRun h
      · exact ih h
  | case3 d rest hd ih =>
      rcases List.mem_cons.1 h with rfl | h
      · exact isLineBreak_eq_false (by simpa using hd)
      · exact ih h

theorem isLineBreak_of_mem_onOneLine {text : List Char} {c : Char} (h : c ∈ onOneLine text) :
    isLineBreak c = false := isLineBreak_of_mem_foldRuns (mem_of_mem_trimEnd h)

theorem onOneLine_onOneLine (text : List Char) : onOneLine (onOneLine text) = onOneLine text := by
  rw [onOneLine, onOneLine, foldRuns_trimEnd, foldRuns_foldRuns, trimEnd_trimEnd]

theorem onOneLine_cons {c : Char} (h : isBlank c = false) (text : List Char) :
    onOneLine (c :: text) = c :: onOneLine text := by
  rw [onOneLine, foldRuns_cons h, trimEnd_cons h, ← onOneLine]

theorem onOneLine_concat {c : Char} (h : isBlank c = false) (text : List Char) :
    onOneLine (text ++ [c]) = foldRuns (text ++ [c]) := by
  rw [onOneLine, foldRuns_concat h, trimEnd_concat h]

@[simp] theorem eraseBlanks_onOneLine (text : List Char) :
    eraseBlanks (onOneLine text) = eraseBlanks text := by
  rw [onOneLine, eraseBlanks_trimEnd, eraseBlanks_foldRuns]

end Text

end PrettyMarkup
