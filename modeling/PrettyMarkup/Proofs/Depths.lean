import Mathlib.Data.List.Forall2
import PrettyMarkup.Markup.Document
import PrettyMarkup.Proofs.Blanks

/-!
# Depths of lines

The depth of a line follows from the fragments in front of it.  What a fragment does to the depth
is read off its first characters and its last ones, and lines are balanced if they leave the depth
as it was: lines one after another are, and so are lines between a tag that opens a scope and one
that closes it.
-/

namespace PrettyMarkup

namespace Markup

open Text

/-! ## One fragment after another -/

section

variable {flat : Bool} {depth : Nat} {fragment : List Char}

theorem closesScope_eq_false (h : opensScope flat fragment = true) :
    closesScope fragment = false := by
  rw [Bool.eq_false_iff]
  intro hcloses
  rw [opensScope_eq_false hcloses] at h
  simp at h

theorem depthOn_of_not_closesScope (h : closesScope fragment = false) :
    depthOn depth fragment = depth := by
  rw [depthOn, if_neg (by simp [h])]

theorem depthAfter_of_not_closesScope (h : closesScope fragment = false) :
    depthAfter flat depth fragment = if opensScope flat fragment then depth + 1 else depth := by
  rw [depthAfter, depthOn_of_not_closesScope h]

theorem depthAfter_of_opensScope (h : opensScope flat fragment = true) :
    depthAfter flat depth fragment = depth + 1 := by
  rw [depthAfter, if_pos h, depthOn, if_neg (by simp [closesScope_eq_false h])]

theorem depthAfter_of_closesScope (h : closesScope fragment = true) :
    depthAfter flat depth fragment = depth - 1 := by
  rw [depthAfter, if_neg (by simp [opensScope_eq_false h]), depthOn, if_pos h]

end

theorem depthThrough_cons (flat : Bool) (depth : Nat) (fragment : List Char)
    (rest : List (List Char)) :
    depthThrough flat depth (fragment :: rest) =
      depthThrough flat (depthAfter flat depth fragment) rest := rfl

theorem depthThrough_append (flat : Bool) (depth : Nat) (front rest : List (List Char)) :
    depthThrough flat depth (front ++ rest) =
      depthThrough flat (depthThrough flat depth front) rest :=
  List.foldl_append

theorem linesFrom_append (flat : Bool) (depth : Nat) (front rest : List (List Char)) :
    linesFrom flat depth (front ++ rest) =
      linesFrom flat depth front ++ linesFrom flat (depthThrough flat depth front) rest := by
  induction front generalizing depth with
  | nil => rfl
  | cons fragment front ih =>
      rw [List.cons_append, linesFrom, linesFrom, ih, List.cons_append, depthThrough_cons]

/-! ## Forms of fragments -/

theorem closesScope_cons {c : Char} (h : c ≠ '/') (rest : List Char) :
    closesScope ('<' :: c :: rest) = false := by
  simp [closesScope, List.isPrefixOf, Ne.symm h]

theorem closesScope_tag {body : List Char} (hslash : body.head? ≠ some '/') :
    closesScope ('<' :: (body ++ ['>'])) = false := by
  cases body with
  | nil => exact closesScope_cons (by decide) []
  | cons c body => exact closesScope_cons (by simpa using hslash) (body ++ ['>'])

/-- A tag ends like an empty element's if its body ends with a `/`. -/
theorem isSuffixOf_tag (body : List Char) :
    ['/', '>'].isSuffixOf ('<' :: (body ++ ['>'])) = (body.getLast? == some '/') := by
  rw [Bool.eq_iff_iff, List.isSuffixOf_iff_suffix, beq_iff_eq, List.getLast?_eq_some_iff]
  constructor
  · rintro ⟨front, hfront⟩
    have hcut : front ++ ['/'] = '<' :: body := by
      apply (List.append_left_inj ['>']).1
      simpa using hfront
    cases front with
    | nil => simp at hcut
    | cons c front => exact ⟨front, (List.cons.inj hcut).2.symm⟩
  · rintro ⟨front, rfl⟩
    exact ⟨'<' :: front, by simp⟩

/-- A tag of no other form opens a scope, unless it is an empty element's or a flat declaration. -/
theorem opensScope_tag {flat : Bool} {body : List Char} (hslash : body.head? ≠ some '/')
    (hquestion : body.head? ≠ some '?')
    (hcomment : commentOpen.isPrefixOf ('<' :: (body ++ ['>'])) = false) :
    opensScope flat ('<' :: (body ++ ['>'])) =
      (!(body.getLast? == some '/') && !(flat && body.head? == some '!')) := by
  have hstart : ∀ c, c ≠ '>' →
      ['<', c].isPrefixOf ('<' :: (body ++ ['>'])) = (body.head? == some c) := by
    intro c hc
    cases body with
    | nil => simp [List.isPrefixOf, hc]
    | cons d body => simp [List.isPrefixOf, BEq.comm]
  have hinstruction : "<?".toList.isPrefixOf ('<' :: (body ++ ['>'])) = false :=
    (hstart '?' (by decide)).trans (by simpa using hquestion)
  have hdeclaration : "<!".toList.isPrefixOf ('<' :: (body ++ ['>'])) = (body.head? == some '!') :=
    hstart '!' (by decide)
  have hempty : "/>".toList.isSuffixOf ('<' :: (body ++ ['>'])) = (body.getLast? == some '/') :=
    isSuffixOf_tag body
  have hopen : "<".toList.isPrefixOf ('<' :: (body ++ ['>'])) = true := by simp
  rw [opensScope, hopen, closesScope_tag hslash, hinstruction, hempty]
  cases flat with
  | false => simp only [Bool.false_eq_true, if_false, hcomment, Bool.not_false, Bool.true_and,
      Bool.and_true, Bool.false_and]
  | true => simp only [if_true, hdeclaration, Bool.not_false, Bool.true_and, Bool.and_true]

theorem opensScope_element {flat : Bool} {body : List Char} (hslash : body.head? ≠ some '/')
    (hquestion : body.head? ≠ some '?') (hbang : body.head? ≠ some '!') :
    opensScope flat ('<' :: (body ++ ['>'])) = !(body.getLast? == some '/') := by
  have hcomment : commentOpen.isPrefixOf ('<' :: (body ++ ['>'])) = false := by
    have hbody : (body ++ ['>']).head? ≠ some '!' := by
      cases body with
      | nil => decide
      | cons c body => exact hbang
    exact isPrefixOf_eq_false hbody ['-', '-']
  rw [opensScope_tag hslash hquestion hcomment]
  simp [hbang]

/-- A comment opens no scope, whatever other declarations do. -/
theorem opensScope_comment (flat : Bool) (rest : List Char) :
    opensScope flat (commentOpen ++ rest) = false := by
  cases flat <;> simp [opensScope, commentOpen, commentBodyOpen]

theorem closesScope_comment (rest : List Char) : closesScope (commentOpen ++ rest) = false :=
  closesScope_cons (by decide) _

theorem opensScope_of_head?_ne {fragment : List Char} (h : fragment.head? ≠ some '<')
    (flat : Bool) : opensScope flat fragment = false := by
  have hstart : "<".toList.isPrefixOf fragment = false := isPrefixOf_eq_false h []
  simp only [opensScope, hstart, Bool.false_and]

/-! ## Balanced lines -/

/-- Lines that their texts are laid out as from a depth on, with the same depth behind them. -/
structure Balanced (flat : Bool) (depth : Nat) (lines : List Line) : Prop where
  linesFrom_eq : linesFrom flat depth (lines.map fun line => line.text.toList) = lines
  depthThrough_eq : depthThrough flat depth (lines.map fun line => line.text.toList) = depth

section Balanced

variable {flat : Bool} {depth : Nat} {lines : List Line}

theorem balanced_nil : Balanced flat depth [] := ⟨rfl, rfl⟩

theorem Balanced.append (h : Balanced flat depth lines) {rest : List Line}
    (hrest : Balanced flat depth rest) : Balanced flat depth (lines ++ rest) := by
  constructor
  · rw [List.map_append, linesFrom_append, h.depthThrough_eq, h.linesFrom_eq, hrest.linesFrom_eq]
  · rw [List.map_append, depthThrough_append, h.depthThrough_eq, hrest.depthThrough_eq]

/-- A line that neither opens nor closes a scope. -/
theorem balanced_singleton {fragment : List Char} (hcloses : closesScope fragment = false)
    (hopens : opensScope flat fragment = false) :
    Balanced flat depth [⟨String.ofList fragment, depth⟩] := by
  constructor <;> simp [linesFrom, depthThrough, depthAfter, depthOn, hcloses, hopens]

/-- A scope around lines that are one level deeper. -/
theorem Balanced.enclose (h : Balanced flat (depth + 1) lines) {opening closing : List Char}
    (hopening : opensScope flat opening = true) (hclosing : closesScope closing = true) :
    Balanced flat depth
      (⟨String.ofList opening, depth⟩ :: (lines ++ [⟨String.ofList closing, depth⟩])) := by
  constructor
  · rw [List.map_cons, List.map_append, String.toList_ofList, linesFrom,
      depthAfter_of_opensScope hopening, linesFrom_append, h.linesFrom_eq, h.depthThrough_eq]
    simp [linesFrom, depthOn, closesScope_eq_false hopening, hclosing]
  · rw [List.map_cons, List.map_append, String.toList_ofList, depthThrough_cons,
      depthAfter_of_opensScope hopening, depthThrough_append, h.depthThrough_eq]
    simp [depthThrough, depthAfter_of_closesScope hclosing]

end Balanced

/-! ## Greater depths -/

/-- A depth, and one that is greater by `n` at most. -/
def Within (n depth depth' : Nat) : Prop := depth ≤ depth' ∧ depth' ≤ depth + n

/-- A line, and the same line deeper by `n` levels at most. -/
def Line.Sinks (n : Nat) (line line' : Line) : Prop :=
  line'.text = line.text ∧ Within n line.depth line'.depth

section Within

variable {n depth depth' : Nat} (h : Within n depth depth')

include h

theorem Within.depthOn (fragment : List Char) :
    Within n (depthOn depth fragment) (depthOn depth' fragment) := by
  obtain ⟨hle, hadd⟩ := h
  rw [Markup.depthOn, Markup.depthOn]
  split
  · constructor <;> omega
  · exact ⟨hle, hadd⟩

/-- No fragment takes two depths apart, and none lets them change places. -/
theorem Within.depthAfter (flat : Bool) (fragment : List Char) :
    Within n (depthAfter flat depth fragment) (depthAfter flat depth' fragment) := by
  obtain ⟨hle, hadd⟩ := h.depthOn fragment
  rw [Markup.depthAfter, Markup.depthAfter]
  split
  · constructor <;> omega
  · exact ⟨hle, hadd⟩

theorem Within.depthThrough (flat : Bool) (fragments : List (List Char)) :
    Within n (depthThrough flat depth fragments) (depthThrough flat depth' fragments) := by
  induction fragments generalizing depth depth' with
  | nil => exact h
  | cons fragment rest ih => exact ih (h.depthAfter flat fragment)

theorem Within.linesFrom (flat : Bool) (fragments : List (List Char)) :
    List.Forall₂ (Line.Sinks n) (linesFrom flat depth fragments)
      (linesFrom flat depth' fragments) := by
  induction fragments generalizing depth depth' with
  | nil => exact .nil
  | cons fragment rest ih => exact .cons ⟨rfl, h.depthOn fragment⟩ (ih (h.depthAfter flat fragment))

end Within

/-! ## Closing tags that close something -/

/-- Every closing tag among some fragments closes a scope, if the depth is `depth` in front of
them. -/
def ClosesOpened (flat : Bool) (depth : Nat) (fragments : List (List Char)) : Prop :=
  ∀ before fragment after, fragments = before ++ fragment :: after →
    closesScope fragment = true → 0 < depthThrough flat depth before

/-- A line `n` levels deeper. -/
def Line.deepen (n : Nat) (line : Line) : Line := { line with depth := line.depth + n }

section ClosesOpened

variable {flat : Bool} {n depth : Nat} {fragment : List Char} {fragments : List (List Char)}

theorem closesOpened_nil : ClosesOpened flat depth [] := by
  intro before fragment after h
  simp at h

theorem closesOpened_cons_iff :
    ClosesOpened flat depth (fragment :: fragments) ↔
      (closesScope fragment = true → 0 < depth) ∧
        ClosesOpened flat (depthAfter flat depth fragment) fragments := by
  constructor
  · intro h
    constructor
    · exact h [] fragment fragments rfl
    · intro before next after hrest
      exact h (fragment :: before) next after (by rw [hrest]; rfl)
  · rintro ⟨hhead, htail⟩ before next after hcut
    cases before with
    | nil =>
        obtain ⟨rfl, -⟩ := List.cons.inj hcut
        exact hhead
    | cons first before =>
        rw [List.cons_append, List.cons.injEq] at hcut
        obtain ⟨rfl, hrest⟩ := hcut
        exact htail before next after hrest

theorem depthOn_add (h : closesScope fragment = true → 0 < depth) (n : Nat) :
    depthOn (depth + n) fragment = depthOn depth fragment + n := by
  rw [depthOn, depthOn]
  split
  · rename_i hcloses
    have := h hcloses
    omega
  · rfl

theorem depthAfter_add (h : closesScope fragment = true → 0 < depth) (n : Nat) :
    depthAfter flat (depth + n) fragment = depthAfter flat depth fragment + n := by
  rw [depthAfter, depthAfter, depthOn_add h]
  split <;> omega

theorem depthThrough_add (h : ClosesOpened flat depth fragments) (n : Nat) :
    depthThrough flat (depth + n) fragments = depthThrough flat depth fragments + n := by
  induction fragments generalizing depth with
  | nil => rfl
  | cons fragment rest ih =>
      obtain ⟨hhead, hrest⟩ := closesOpened_cons_iff.1 h
      rw [depthThrough_cons, depthThrough_cons, depthAfter_add hhead, ih hrest]

/-- Lines keep their distance from a greater depth if every closing tag closes something. -/
theorem linesFrom_add (h : ClosesOpened flat depth fragments) (n : Nat) :
    linesFrom flat (depth + n) fragments =
      (linesFrom flat depth fragments).map (Line.deepen n) := by
  induction fragments generalizing depth with
  | nil => rfl
  | cons fragment rest ih =>
      obtain ⟨hhead, hrest⟩ := closesOpened_cons_iff.1 h
      rw [linesFrom, linesFrom, depthOn_add hhead, depthAfter_add hhead, ih hrest]
      rfl

/-- Where a closing tag closes nothing, it gives a greater depth away. -/
theorem lt_of_depthOn_add (hn : 0 < n)
    (h : depthOn (depth + n) fragment = depthOn depth fragment + n)
    (hcloses : closesScope fragment = true) : 0 < depth := by
  rw [depthOn, depthOn, if_pos hcloses, if_pos hcloses] at h
  omega

theorem closesOpened_of_linesFrom_add (hn : 0 < n)
    (h : linesFrom flat (depth + n) fragments =
      (linesFrom flat depth fragments).map (Line.deepen n)) :
    ClosesOpened flat depth fragments := by
  induction fragments generalizing depth with
  | nil => exact closesOpened_nil
  | cons fragment rest ih =>
      rw [linesFrom, linesFrom, List.map_cons, List.cons.injEq, Line.deepen, Line.mk.injEq] at h
      obtain ⟨⟨-, hdepth⟩, hrest⟩ := h
      have hhead := lt_of_depthOn_add hn hdepth
      rw [depthAfter_add hhead] at hrest
      exact closesOpened_cons_iff.2 ⟨hhead, ih hrest⟩

theorem deepen_zero : Line.deepen 0 = id := rfl

/-- From the depth `n` on, lines and the depth behind them are deeper by just `n` exactly if `n`
is zero or every closing tag closes something. -/
theorem linesFrom_deepen_iff :
    linesFrom flat n fragments = (linesFrom flat 0 fragments).map (Line.deepen n) ∧
        depthThrough flat n fragments = depthThrough flat 0 fragments + n ↔
      n = 0 ∨ ClosesOpened flat 0 fragments := by
  constructor
  · rintro ⟨hlines, -⟩
    rcases Nat.eq_zero_or_pos n with hn | hn
    · exact Or.inl hn
    · exact Or.inr (closesOpened_of_linesFrom_add hn (by simpa using hlines))
  · rintro (rfl | hcloses)
    · exact ⟨by rw [deepen_zero, List.map_id], rfl⟩
    · exact ⟨by simpa using linesFrom_add hcloses n, by simpa using depthThrough_add hcloses n⟩

end ClosesOpened

end Markup

end PrettyMarkup
