import PrettyMarkup.Text.Blank

/-!
# Folded line breaks

A text on one line: every run of blanks that holds a line break is one space, and the
blanks at the end are gone.  Other blanks stay as they are.
-/

namespace PrettyMarkup

namespace Text

/-- A run of blanks as it stands on one line. -/
def foldRun (run : List Char) : List Char := if run.any isLineBreak then [' '] else run

/-- A text with its runs of blanks folded. -/
def foldRuns : List Char → List Char
  | [] => []
  | c :: rest =>
    if isBlank c then
      foldRun (c :: rest.takeWhile isBlank) ++ foldRuns (rest.dropWhile isBlank)
    else c :: foldRuns rest
  termination_by text => text.length
  decreasing_by
    · have := (List.dropWhile_suffix isBlank (l := rest)).length_le
      simp only [List.length_cons]
      omega
    · simp

/-- A text on one line. -/
def onOneLine (text : List Char) : List Char := trimEnd (foldRuns text)

@[simp] theorem foldRuns_nil : foldRuns [] = [] := by
  rw [foldRuns.eq_def]

theorem foldRuns_blank {c : Char} (h : isBlank c = true) (rest : List Char) :
    foldRuns (c :: rest) =
      foldRun (c :: rest.takeWhile isBlank) ++ foldRuns (rest.dropWhile isBlank) := by
  rw [foldRuns.eq_def]
  exact if_pos h

theorem foldRuns_cons {c : Char} (h : isBlank c = false) (rest : List Char) :
    foldRuns (c :: rest) = c :: foldRuns rest := by
  rw [foldRuns.eq_def]
  exact if_neg (by simp [h])

@[simp] theorem onOneLine_nil : onOneLine [] = [] := by
  simp [onOneLine]

/-- Folding keeps every character that is not blank. -/
theorem eraseBlanks_foldRuns (text : List Char) :
    eraseBlanks (foldRuns text) = eraseBlanks text := by
  fun_induction foldRuns text with
  | case1 => rfl
  | case2 c rest hc ih =>
      have hrun : ∀ x ∈ c :: rest.takeWhile isBlank, isBlank x = true := by
        intro x hx
        rcases List.mem_cons.1 hx with rfl | hx
        · exact hc
        · exact List.all_eq_true.1 (List.all_takeWhile (p := isBlank) (l := rest)) x hx
      have hnone : ∀ run : List Char, (∀ x ∈ run, isBlank x = true) → eraseBlanks run = [] := by
        intro run h
        simpa [eraseBlanks, List.filter_eq_nil_iff] using h
      have hfold : eraseBlanks (foldRun (c :: rest.takeWhile isBlank)) = [] := by
        rw [foldRun]
        split
        · rfl
        · exact hnone _ hrun
      calc
        eraseBlanks (foldRun (c :: rest.takeWhile isBlank) ++ foldRuns (rest.dropWhile isBlank))
          = eraseBlanks (rest.dropWhile isBlank) := by
            rw [eraseBlanks_append, hfold, ih, List.nil_append]
        _ = eraseBlanks ((c :: rest.takeWhile isBlank) ++ rest.dropWhile isBlank) := by
            rw [eraseBlanks_append, hnone _ hrun, List.nil_append]
        _ = eraseBlanks (c :: rest) := by
            rw [List.cons_append, List.takeWhile_append_dropWhile]
  | case3 c rest hc ih =>
      simp only [eraseBlanks] at ih
      simp [eraseBlanks, hc, ih]

end Text

end PrettyMarkup
