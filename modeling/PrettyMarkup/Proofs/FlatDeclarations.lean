import PrettyMarkup.Proofs.Depths
import PrettyMarkup.Proofs.Lines

/-!
# What the options of a layout decide

The texts of lines depend on whether literals are guarded, and on no other option.  The indent unit
is written when a document is rendered; it moves no line.  Flat declarations open no scope, so lines
can only rise.

## Implementation notes

A document with flat declarations and one without are two counts over the same lines.  A count that
was ahead may lose its lead where a closing tag meets a depth of zero, but never falls behind, and
each declaration adds one to the lead at most: so the two stay within the number of declarations
read so far (`Within.depthAfter_flat`).
-/

namespace PrettyMarkup

namespace Markup

/-- A declaration that is not a comment. -/
def isDeclaration (fragment : List Char) : Bool :=
  "<!".toList.isPrefixOf fragment && !commentOpen.isPrefixOf fragment

/-! ## Two counts over the same fragments -/

section

variable {fragment : List Char}

/-- What starts with `<!--` starts with `<!`. -/
theorem isPrefixOf_declaration_of_comment (h : commentOpen.isPrefixOf fragment = true) :
    "<!".toList.isPrefixOf fragment = true := by
  have hopen : "<!".toList <+: commentOpen := ⟨['-', '-'], rfl⟩
  exact List.isPrefixOf_iff_prefix.2 (hopen.trans (List.isPrefixOf_iff_prefix.1 h))

/-- Only declarations may open a scope or not. -/
theorem opensScope_flat (fragment : List Char) :
    opensScope true fragment = (opensScope false fragment && !isDeclaration fragment) := by
  simp only [opensScope, isDeclaration, if_true, Bool.false_eq_true, if_false]
  cases hcomment : commentOpen.isPrefixOf fragment with
  | true => rw [isPrefixOf_declaration_of_comment hcomment]; simp
  | false => cases "<!".toList.isPrefixOf fragment <;> simp

end

section

variable {n m depth depth' : Nat}

theorem Within.mono (h : Within n depth depth') (hnm : n ≤ m) : Within m depth depth' :=
  ⟨h.1, h.2.trans (Nat.add_le_add_left hnm depth)⟩

theorem within_zero_iff : Within 0 depth depth' ↔ depth = depth' := by
  rw [Within]
  omega

/-- A declaration takes the counts apart by one at most, and no other fragment does. -/
theorem Within.depthAfter_flat (h : Within n depth depth') (fragment : List Char) :
    Within (n + [fragment].countP isDeclaration) (Markup.depthAfter true depth fragment)
      (Markup.depthAfter false depth' fragment) := by
  obtain ⟨hle, hadd⟩ := h.depthOn fragment
  rw [Markup.depthAfter, Markup.depthAfter, opensScope_flat, List.countP_singleton]
  cases opensScope false fragment <;> cases isDeclaration fragment <;>
    simp only [Bool.and_true, Bool.and_false, Bool.not_true, Bool.not_false, Bool.false_eq_true,
      if_true, if_false] <;>
    constructor <;> omega

theorem Within.depthThrough_flat (h : Within n depth depth') (fragments : List (List Char)) :
    Within (n + fragments.countP isDeclaration) (Markup.depthThrough true depth fragments)
      (Markup.depthThrough false depth' fragments) := by
  induction fragments generalizing n depth depth' with
  | nil => exact h
  | cons fragment rest ih =>
      have hrest := ih (h.depthAfter_flat fragment)
      rwa [Nat.add_assoc, ← List.countP_append, List.singleton_append] at hrest

/-- No line is deeper with flat declarations, and none is higher by more than the declarations
account for. -/
theorem Within.linesFrom_flat (h : Within n depth depth') (fragments : List (List Char)) :
    List.Forall₂ (Line.Sinks (n + fragments.countP isDeclaration))
      (Markup.linesFrom true depth fragments) (Markup.linesFrom false depth' fragments) := by
  induction fragments generalizing n depth depth' with
  | nil => exact .nil
  | cons fragment rest ih =>
      have hrest := ih (h.depthAfter_flat fragment)
      rw [Nat.add_assoc, ← List.countP_append, List.singleton_append] at hrest
      exact .cons ⟨rfl, (h.depthOn fragment).mono (Nat.le_add_right _ _)⟩ hrest

end

theorem eq_of_sinks_zero {lines lines' : List Line}
    (h : List.Forall₂ (Line.Sinks 0) lines lines') : lines = lines' := by
  rw [← List.forall₂_eq_eq_eq]
  refine h.imp ?_
  rintro ⟨text, depth⟩ ⟨text', depth'⟩ ⟨htext, hdepth⟩
  rw [Line.mk.injEq]
  exact ⟨htext.symm, within_zero_iff.1 hdepth⟩

/-! ## Documents -/

/-- The options of a layout act only where they should.  Another indent unit is another indent unit
and nothing else.  With flat declarations lines have the same texts, and neither a line nor the end
of the document is deeper, or higher by more than the number of declarations; without declarations
other than comments the document is the same. -/
theorem reflow_flatDeclarations (options : ReflowOptions) (raw : String) :
    (∀ unit, reflow { options with indentUnit := unit } raw =
        { reflow options raw with indentUnit := unit }) ∧
      let flat := reflow { options with flatDeclarations := true } raw
      let steep := reflow { options with flatDeclarations := false } raw
      let declarations := steep.lines.countP fun line => isDeclaration line.text.toList
      List.Forall₂ (Line.Sinks declarations) flat.lines steep.lines ∧
        Within declarations flat.finalDepth steep.finalDepth ∧
        ((∀ line ∈ steep.lines, "<!".toList <+: line.text.toList →
            commentOpen <+: line.text.toList) →
          flat = steep) := by
  refine ⟨fun unit => by rw [reflow, reflow], ?_⟩
  intro flat steep declarations
  let pieces := linesOf (uniform options.guardLiterals) (dropMark raw.toList)
  have hflat : flat.lines = linesFrom true 0 pieces := lines_reflow _ raw
  have hsteep : steep.lines = linesFrom false 0 pieces := lines_reflow _ raw
  have hflatEnd : flat.finalDepth = depthThrough true 0 pieces := by
    rw [finalDepth_reflow, map_text_reflow]
  have hsteepEnd : steep.finalDepth = depthThrough false 0 pieces := by
    rw [finalDepth_reflow, map_text_reflow]
  have hcount : declarations = 0 + pieces.countP isDeclaration := by
    rw [← map_text_linesFrom false 0 pieces, ← hsteep, List.countP_map, Nat.zero_add]
    rfl
  have hstart : Within 0 0 0 := within_zero_iff.2 rfl
  have hlines : List.Forall₂ (Line.Sinks declarations) flat.lines steep.lines := by
    rw [hcount, hflat, hsteep]
    exact hstart.linesFrom_flat pieces
  have hfinal : Within declarations flat.finalDepth steep.finalDepth := by
    rw [hcount, hflatEnd, hsteepEnd]
    exact hstart.depthThrough_flat pieces
  refine ⟨hlines, hfinal, ?_⟩
  intro hcomments
  have hnone : declarations = 0 := by
    rw [List.countP_eq_zero]
    intro line hline
    simpa [isDeclaration] using hcomments line hline
  rw [hnone] at hlines hfinal
  rw [Document.mk.injEq]
  exact ⟨eq_of_sinks_zero hlines, rfl, within_zero_iff.1 hfinal⟩

/-- Two declarations open two scopes, of which a closing tag closes one; comments open none. -/
theorem reflow_flatDeclarations_doctype :
    let flat := reflow ⟨"  ", true, true⟩ "<!x><![CDATA[y]]></a><b/>"
    let steep := reflow ⟨"  ", true, false⟩ "<!x><![CDATA[y]]></a><b/>"
    flat.lines.map Line.depth = [0, 0, 0, 0] ∧ steep.lines.map Line.depth = [0, 1, 1, 1] ∧
      List.Forall₂ (Line.Sinks 2) flat.lines steep.lines ∧
      Within 2 flat.finalDepth steep.finalDepth ∧
      (∀ line ∈ (reflow ⟨"\t", true, false⟩ "<a><!--b--></a>").lines,
        "<!".toList <+: line.text.toList → commentOpen <+: line.text.toList) ∧
      reflow ⟨"\t", true, true⟩ "<a><!--b--></a>" =
        reflow ⟨"\t", true, false⟩ "<a><!--b--></a>" := by
  intro flat steep
  have h := (reflow_flatDeclarations ⟨"  ", true, false⟩ "<!x><![CDATA[y]]></a><b/>").2
  have hcount : steep.lines.countP (fun line => isDeclaration line.text.toList) = 2 := by
    decide +kernel
  have hcomments : ∀ line ∈ (reflow ⟨"\t", true, false⟩ "<a><!--b--></a>").lines,
      "<!".toList <+: line.text.toList → commentOpen <+: line.text.toList := by decide +kernel
  refine ⟨by decide +kernel, by decide +kernel, ?_, ?_, hcomments, ?_⟩
  · rw [← hcount]
    exact h.1
  · rw [← hcount]
    exact h.2.1
  · exact (reflow_flatDeclarations ⟨"\t", true, true⟩ "<a><!--b--></a>").2.2.2 hcomments

end Markup

end PrettyMarkup
