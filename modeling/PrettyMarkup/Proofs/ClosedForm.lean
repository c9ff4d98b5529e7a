import Mathlib.Data.List.Induction
import Mathlib.Order.Bounds.Image
import PrettyMarkup.Proofs.Depths
import PrettyMarkup.Proofs.Lines

/-!
# Depths in closed form

The depth is counted line by line, and never below zero.  It is the greatest balance, openers less
closers, of the last lines that were counted: none of them, the last one, the last two, and so on
(`isGreatest_depthThrough`).  A closer counts for its own line, an opener only for the lines behind
it.

## Implementation notes

Where the count would go below zero it starts over from no lines, so one more line adds its balance
to that of every suffix but the empty one, whose balance is zero.
-/

namespace PrettyMarkup

namespace Markup

/-- The openers among some lines less the closers among them. -/
def balance (flat : Bool) (lines : List Line) : Int :=
  (lines.countP fun line => opensScope flat line.text.toList : Nat) -
    (lines.countP fun line => closesScope line.text.toList : Nat)

/-- The balances of the last lines of a list: of all of them, of all but the first, and so on. -/
def suffixBalances (flat : Bool) (lines : List Line) : Set Int :=
  balance flat '' {suffix | suffix <:+ lines}

section

variable {flat : Bool}

@[simp] theorem balance_nil : balance flat [] = 0 := rfl

theorem balance_append (front rest : List Line) :
    balance flat (front ++ rest) = balance flat front + balance flat rest := by
  simp only [balance, List.countP_append, Int.natCast_add]
  omega

theorem balance_le_length (lines : List Line) : balance flat lines ≤ lines.length := by
  have hcount : lines.countP (fun line => opensScope flat line.text.toList) ≤ lines.length :=
    List.countP_le_length
  rw [balance]
  omega

@[simp] theorem suffixBalances_nil : suffixBalances flat [] = {0} := by
  ext n
  simp [suffixBalances]

/-! ## One more line -/

theorem suffixBalances_concat (lines : List Line) (line : Line) :
    suffixBalances flat (lines ++ [line]) =
      insert 0 ((· + balance flat [line]) '' suffixBalances flat lines) := by
  ext n
  simp only [suffixBalances, Set.mem_insert_iff, Set.mem_image, Set.mem_ofPred_eq,
    List.suffix_concat_iff]
  constructor
  · rintro ⟨suffix, rfl | ⟨front, rfl, hfront⟩, rfl⟩
    · exact Or.inl rfl
    · exact Or.inr ⟨_, ⟨front, hfront, rfl⟩, (balance_append front [line]).symm⟩
  · rintro (rfl | ⟨_, ⟨front, hfront, rfl⟩, rfl⟩)
    · exact ⟨[], Or.inl rfl, rfl⟩
    · exact ⟨front ++ [line], Or.inr ⟨front, rfl, hfront⟩, balance_append front [line]⟩

theorem balance_singleton (line : Line) :
    balance flat [line] =
      (if opensScope flat line.text.toList then 1 else 0) -
        if closesScope line.text.toList then 1 else 0 := by
  simp only [balance, List.countP_singleton]
  split <;> split <;> rfl

theorem depthAfter_eq_max (depth : Nat) (line : Line) :
    (depthAfter flat depth line.text.toList : Int) = max 0 (depth + balance flat [line]) := by
  by_cases hcloses : closesScope line.text.toList = true
  · have hopens : ¬opensScope flat line.text.toList = true := by
      simp [opensScope_eq_false hcloses]
    rw [depthAfter_of_closesScope hcloses, balance_singleton, if_neg hopens, if_pos hcloses]
    omega
  · rw [balance_singleton, if_neg hcloses, depthAfter, depthOn, if_neg hcloses]
    split <;> omega

theorem isGreatest_concat {lines : List Line} {depth : Nat}
    (h : IsGreatest (suffixBalances flat lines) depth) (line : Line) :
    IsGreatest (suffixBalances flat (lines ++ [line]))
      (depthAfter flat depth line.text.toList) := by
  have hadd : Monotone (· + balance flat [line]) := fun _ _ hle => Int.add_le_add_right hle _
  rw [suffixBalances_concat, depthAfter_eq_max]
  exact (hadd.map_isGreatest h).insert 0

/-- The depth behind some lines is the greatest balance of the last of them. -/
theorem isGreatest_depthThrough (lines : List Line) :
    IsGreatest (suffixBalances flat lines)
      (depthThrough flat 0 (lines.map fun line => line.text.toList)) := by
  induction lines using List.reverseRecOn with
  | nil => simp [depthThrough]
  | append_singleton lines line ih =>
      rw [List.map_append, depthThrough_append]
      exact isGreatest_concat ih line

end

/-! ## Lines of a document -/

section

variable {flat : Bool} {depth : Nat} {fragments : List (List Char)} {before after : List Line}
  {line next : Line}

/-- The depth of a line, by the lines in front of it. -/
theorem depth_of_linesFrom_eq (h : linesFrom flat depth fragments = before ++ line :: after) :
    line.depth =
      depthOn (depthThrough flat depth (before.map fun line => line.text.toList))
        line.text.toList := by
  induction before generalizing depth fragments with
  | nil =>
      cases fragments with
      | nil => simp [linesFrom] at h
      | cons fragment fragments =>
          rw [linesFrom, List.nil_append, List.cons.injEq] at h
          rw [← h.1, String.toList_ofList]
          rfl
  | cons first before ih =>
      cases fragments with
      | nil => simp [linesFrom] at h
      | cons fragment fragments =>
          rw [linesFrom, List.cons_append, List.cons.injEq] at h
          rw [ih h.2, ← h.1, List.map_cons, depthThrough_cons, String.toList_ofList]

/-- A closer counts for its own line, and no other line does. -/
theorem isGreatest_depth (h : linesFrom flat 0 fragments = before ++ line :: after) :
    IsGreatest
      (suffixBalances flat
        (if closesScope line.text.toList then before ++ [line] else before)) line.depth := by
  have hbefore := @isGreatest_depthThrough flat before
  rw [depth_of_linesFrom_eq h, depthOn]
  split
  · rename_i hcloses
    rw [← @depthAfter_of_closesScope flat _ _ hcloses]
    exact isGreatest_concat hbefore line
  · exact hbefore

theorem depth_le_depth_of_linesFrom_eq
    (h : linesFrom flat depth fragments = before ++ line :: next :: after) :
    line.depth ≤ next.depth + 1 ∧ next.depth ≤ line.depth + 1 := by
  have hnext : linesFrom flat depth fragments = (before ++ [line]) ++ next :: after := by
    rw [h, List.append_assoc, List.singleton_append]
  rw [depth_of_linesFrom_eq h, depth_of_linesFrom_eq hnext, List.map_append, depthThrough_append]
  generalize depthThrough flat depth _ = reached
  simp only [depthThrough, List.map_cons, List.map_nil, List.foldl_cons, List.foldl_nil]
  by_cases hcloses : closesScope line.text.toList = true
  · rw [depthAfter_of_closesScope hcloses, depthOn, if_pos hcloses, depthOn]
    constructor <;> split <;> omega
  · rw [depthAfter, depthOn, depthOn, if_neg hcloses]
    constructor <;> split <;> split <;> omega

end

/-! ## Whole documents -/

theorem le_foldl_max {depths : List Nat} {depth least : Nat}
    (h : depth ∈ depths ∨ depth ≤ least) : depth ≤ depths.foldl max least := by
  induction depths generalizing least with
  | nil => exact h.resolve_left List.not_mem_nil
  | cons first depths ih =>
      rw [List.foldl_cons]
      apply ih
      rcases h with h | h
      · rcases List.mem_cons.1 h with rfl | h
        · exact Or.inr (le_max_right _ _)
        · exact Or.inl h
      · exact Or.inr (h.trans (le_max_left _ _))

theorem le_maxDepth {document : Document} {line : Line} (h : line ∈ document.lines) :
    line.depth ≤ document.maxDepth :=
  le_foldl_max (Or.inl (List.mem_map_of_mem h))

section

variable (options : ReflowOptions) (raw : String)

theorem exists_linesFrom_reflow :
    ∃ fragments, linesFrom options.flatDeclarations 0 fragments = (reflow options raw).lines :=
  ⟨_, rfl⟩

/-- A further line would be at most one level deeper than the deepest one. -/
theorem finalDepth_le_maxDepth :
    (reflow options raw).finalDepth ≤ (reflow options raw).maxDepth + 1 := by
  obtain ⟨fragments, hfragments⟩ := exists_linesFrom_reflow options raw
  rw [finalDepth_reflow]
  rcases List.eq_nil_or_concat (reflow options raw).lines with hlines | ⟨front, last, hlines⟩
  · simp [hlines, depthThrough]
  · rw [List.concat_eq_append] at hlines
    have hlast : last.depth ≤ (reflow options raw).maxDepth := le_maxDepth (by simp [hlines])
    rw [hlines] at hfragments
    rw [depth_of_linesFrom_eq hfragments] at hlast
    rw [hlines, List.map_append, depthThrough_append, List.map_singleton, depthThrough_cons,
      depthThrough, List.foldl_nil, depthAfter]
    split <;> omega

/-- The depths of a document in closed form, and what follows from it of depths one after another
and of the last one. -/
theorem reflow_depths :
    let document := reflow options raw
    let flat := options.flatDeclarations
    (∀ line ∈ document.lines,
      ¬(closesScope line.text.toList = true ∧ opensScope flat line.text.toList = true)) ∧
    IsGreatest (suffixBalances flat document.lines) document.finalDepth ∧
    (∀ before line after, document.lines = before ++ line :: after →
      IsGreatest
        (suffixBalances flat
          (if closesScope line.text.toList then before ++ [line] else before)) line.depth) ∧
    (∀ before line next after, document.lines = before ++ line :: next :: after →
      line.depth ≤ next.depth + 1 ∧ next.depth ≤ line.depth + 1) ∧
    document.finalDepth ≤ document.maxDepth + 1 ∧
    document.finalDepth ≤ document.lines.length := by
  intro document flat
  obtain ⟨fragments, hfragments⟩ := exists_linesFrom_reflow options raw
  have hfinal : IsGreatest (suffixBalances flat document.lines) document.finalDepth := by
    rw [finalDepth_reflow]
    exact isGreatest_depthThrough document.lines
  have hlength : document.finalDepth ≤ document.lines.length := by
    obtain ⟨suffix, hsuffix, hbalance⟩ := hfinal.1
    have hle : balance flat suffix ≤ suffix.length := balance_le_length suffix
    have hshort : suffix.length ≤ document.lines.length := hsuffix.length_le
    omega
  refine ⟨?_, hfinal, ?_, ?_, finalDepth_le_maxDepth options raw, hlength⟩
  · rintro line - ⟨hcloses, hopens⟩
    rw [opensScope_eq_false hcloses] at hopens
    exact Bool.false_ne_true hopens
  · intro before line after hlines
    exact isGreatest_depth (hfragments.trans hlines)
  · intro before line next after hlines
    exact depth_le_depth_of_linesFrom_eq (hfragments.trans hlines)

end

/-- Closers that close nothing are forgotten: behind them the count starts over. -/
theorem reflow_depths_closers :
    let document := reflow .standard "</a></b><c><d></d>"
    document.lines = [⟨"</a>", 0⟩, ⟨"</b>", 0⟩] ++ ⟨"<c>", 0⟩ :: [⟨"<d>", 1⟩, ⟨"</d>", 1⟩] ∧
      IsGreatest (suffixBalances false [⟨"</a>", 0⟩, ⟨"</b>", 0⟩]) 0 ∧
      IsGreatest (suffixBalances false document.lines) 1 := by
  intro document
  have hlines : document.lines =
      [⟨"</a>", 0⟩, ⟨"</b>", 0⟩] ++ ⟨"<c>", 0⟩ :: [⟨"<d>", 1⟩, ⟨"</d>", 1⟩] := by decide
  have h := reflow_depths .standard "</a></b><c><d></d>"
  exact ⟨hlines, h.2.2.1 _ _ _ hlines, h.2.1⟩

end Markup

end PrettyMarkup
