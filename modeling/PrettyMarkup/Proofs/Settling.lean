import PrettyMarkup.Proofs.FixedPoints

/-!
# Unguarded layout settles

An unguarded tag ends at the first `><` that it meets, so no line of an unguarded document holds
one; and rendering puts blanks only between the lines, so the rendered text holds none either.
What the first pass splits the second may join again, over the line feed at the split, but no text
without `><` is split.  So a second pass splits nothing, and a third one changes nothing.
-/

namespace PrettyMarkup

namespace Markup

open Text

/-! ## Texts without `><` -/

theorem holdsSplit_iff {text : List Char} : holdsSplit text = true ↔ ['>', '<'] <:+: text := by
  induction text with
  | nil => simp [holdsSplit]
  | cons c rest ih =>
      have hmeets : meetsTag rest = true ↔ ['<'] <+: rest := by
        cases rest with
        | nil => simp [meetsTag]
        | cons d rest => simp [meetsTag, List.cons_prefix_cons, @eq_comm _ '<']
      rw [holdsSplit_cons, Bool.or_eq_true, Bool.and_eq_true, beq_iff_eq, hmeets, ih,
        List.infix_cons_iff, List.cons_prefix_cons, @eq_comm _ '>']

theorem holdsSplit_eq_false_of_isInfix {part text : List Char} (hpart : part <:+: text)
    (h : holdsSplit text = false) : holdsSplit part = false := by
  rw [Bool.eq_false_iff, Ne, holdsSplit_iff] at h ⊢
  exact fun hsplit => h (hsplit.trans hpart)

/-- No `><` stands across a line feed. -/
theorem holdsSplit_append_line_feed (text rest : List Char) :
    holdsSplit (text ++ '\n' :: rest) = (holdsSplit text || holdsSplit rest) := by
  induction text with
  | nil => rfl
  | cons c text ih =>
      rw [List.cons_append, holdsSplit_cons, holdsSplit_cons, ih, Bool.or_assoc]
      cases text with
      | nil => simp [meetsTag]
      | cons d text => rfl

section Unguarded

variable {source tag after : List Char}

theorem Scan.meetsTag_of_ends_eq_false {scan : Scan} {c : Char} {rest : List Char}
    (h : scan.ends (uniform false) c rest = false) : (c == '>' && meetsTag rest) = false := by
  cases hc : c == '>' with
  | false => rfl
  | true =>
      simp only [ends, hc, uniform_apply, splitsLiteral, Bool.true_and, Bool.or_eq_false_iff] at h
      simpa using h.2

/-- An unguarded cut is made at the first `><`. -/
theorem Scan.holdsSplit_of_cut?_eq_some {scan : Scan} {text inside : List Char}
    (h : cut? (uniform false) scan text = some (inside, after)) : holdsSplit inside = false := by
  induction text generalizing scan inside with
  | nil => simp at h
  | cons c rest ih =>
      rcases cut?_cons_eq_some h with ⟨-, rfl, -⟩ | ⟨hends, tail, rfl, hcut⟩
      · simp [holdsSplit_cons, meetsTag, holdsSplit]
      · have hmeets : meetsTag rest = meetsTag tail := by
          rw [← (of_cut?_eq_some hcut).1, meetsTag_append (ne_nil_of_cut? hcut)]
        rw [holdsSplit_cons, ih hcut, ← hmeets, Bool.or_false]
        exact meetsTag_of_ends_eq_false hends

theorem Scan.holdsSplit_of_cut?_eq_none {scan : Scan} {text : List Char}
    (h : cut? (uniform false) scan text = none) : holdsSplit text = false := by
  induction text generalizing scan with
  | nil => rfl
  | cons c rest ih =>
      obtain ⟨hends, hcut⟩ := cut?_cons_eq_none.1 h
      rw [holdsSplit_cons, ih hcut, Bool.or_false]
      exact meetsTag_of_ends_eq_false hends

theorem holdsSplit_of_cutTag?_eq_some (hsource : meetsTag source = true)
    (h : cutTag? (uniform false) source = some (tag, after)) : holdsSplit tag = false := by
  obtain ⟨region, text, rfl, hregion, -⟩ := exists_opener hsource
  obtain ⟨inside, rfl, hcut⟩ := exists_cut?_of_cutTag?_opener hregion h
  rw [holdsSplit_opener_append, Scan.holdsSplit_of_cut?_eq_some hcut]

theorem holdsSplit_of_cutTag?_eq_none (hsource : meetsTag source = true)
    (h : cutTag? (uniform false) source = none) : holdsSplit source = false := by
  obtain ⟨region, text, rfl, hregion, -⟩ := exists_opener hsource
  rw [cutTag?_opener_eq_none_iff hregion] at h
  rw [holdsSplit_opener_append, Scan.holdsSplit_of_cut?_eq_none h]

/-- No line of an unguarded text holds a `><`. -/
theorem holdsSplit_of_mem_linesOf {line : List Char} (h : line ∈ linesOf (uniform false) source) :
    holdsSplit line = false := by
  induction source using pieces_induction (uniform false) with
  | nil => simp at h
  | tag source tag after hsource hcut ih =>
      rw [linesOf_tag hsource hcut, List.mem_cons] at h
      rcases h with rfl | h
      · rw [holdsSplit_onOneLine, holdsSplit_of_cutTag?_eq_some hsource hcut]
      · exact ih h
  | unended source hsource hcut =>
      rw [linesOf_open hsource hcut, List.mem_singleton] at h
      rw [h, holdsSplit_onOneLine, holdsSplit_of_cutTag?_eq_none hsource hcut]
  | line_feed rest ih =>
      rw [linesOf_break] at h
      exact ih h
  | data data rest hne hdata hrest ih =>
      rw [linesOf_data hne hdata hrest, List.mem_append] at h
      rcases h with h | h
      · rw [layOut_data (meetsTag_of_isData hdata)] at h
        split at h
        · simp at h
        · rw [List.mem_singleton.1 h]
          exact holdsSplit_eq_false fun hmem => not_mem_of_isData hdata (mem_of_mem_trim hmem)
      · exact ih h

end Unguarded

/-! ## Rendered texts -/

/-- Rendering makes no `><`. -/
theorem holdsSplit_rendered {unit : List Char} (hunit : AllBlank unit) {lines : List Line}
    (h : ∀ line ∈ lines, holdsSplit line.text.toList = false) :
    holdsSplit (rendered unit lines) = false := by
  induction lines with
  | nil => rfl
  | cons line lines ih =>
      obtain ⟨hline, hlines⟩ := List.forall_mem_cons.1 h
      have hrender : holdsSplit (line.render unit) = false := by
        rw [Line.render_eq, holdsSplit_blanks_append (line.allBlank_indent hunit), hline]
      obtain ⟨rest, hrendered, hrest⟩ := exists_rendered_cons unit line lines
      rw [hrendered]
      rcases hrest with ⟨rfl, -⟩ | rfl
      · rw [List.append_nil, hrender]
      · rw [holdsSplit_append_line_feed, hrender, ih hlines]
        rfl

theorem unsplit_of_holdsSplit {guards : Region → Bool} {source : List Char}
    (h : holdsSplit source = false) : Unsplit guards (pieces (uniform true) source) := by
  refine Or.inr fun piece hpiece _ => holdsSplit_eq_false_of_isInfix ?_ h
  rw [← @flatten_pieces (uniform true) source]
  exact List.infix_of_mem_flatten hpiece

section

variable {options : ReflowOptions} (hguard : options.guardLiterals = false)

include hguard

theorem holdsSplit_of_mem_reflow {raw : String} {line : Line}
    (h : line ∈ (reflow options raw).lines) : holdsSplit line.text.toList = false := by
  have hmem := mem_linesOf_of_mem_reflow h
  rw [hguard] at hmem
  exact holdsSplit_of_mem_linesOf hmem

theorem holdsSplit_render (hunit : AllBlank options.indentUnit.toList) (raw : String) :
    holdsSplit (reflow options raw).render.toList = false := by
  rw [toList_render_reflow]
  exact holdsSplit_rendered hunit fun line => holdsSplit_of_mem_reflow hguard

end

theorem isSuffix_dropMark (source : List Char) : dropMark source <:+ source := by
  rw [dropMark.eq_def]
  split
  · exact List.suffix_cons _ _
  · exact List.suffix_rfl

/-- A text without `><` keeps its literals. -/
theorem keepsLiterals_of_holdsSplit (options : ReflowOptions) {raw : String}
    (h : holdsSplit raw.toList = false) : KeepsLiterals options raw := by
  rw [keepsLiterals_iff]
  apply unsplit_of_holdsSplit
  exact holdsSplit_eq_false_of_isInfix (isSuffix_dropMark raw.toList).isInfix h

/-! ## Passes -/

/-- A rendered document starts with a mark only if the raw text keeps one. -/
theorem head?_render_ne {options : ReflowOptions} (hunit : AllBlank options.indentUnit.toList)
    {raw : String} (h : (trimStart (dropMark raw.toList)).head? ≠ some '\uFEFF') :
    (trimStart (reflow options raw).render.toList).head? ≠ some '\uFEFF' := by
  rwa [head?_trimStart, eraseBlanks_render hunit, ← head?_trimStart]

theorem head?_ne_of_trimStart {text : List Char}
    (h : (trimStart text).head? ≠ some '\uFEFF') : text.head? ≠ some '\uFEFF' := by
  intro hhead
  obtain ⟨rest, rfl⟩ := List.head?_eq_some_iff.1 hhead
  rw [trimStart_cons (by decide)] at h
  exact h rfl

/-- Without a mark at its front a document is laid out as itself if its literals are kept. -/
theorem reflow_render_eq_self {options : ReflowOptions} {raw : String}
    (hunit : AllBlank options.indentUnit.toList)
    (hmark : (trimStart (dropMark raw.toList)).head? ≠ some '\uFEFF')
    (h : KeepsLiterals options raw) :
    reflow options (reflow options raw).render = reflow options raw := by
  have hhead := head?_ne_of_trimStart (head?_render_ne hunit hmark)
  rw [reflow_eq_iff, dropMark_of_head? hhead]
  exact (linesOf_render_eq_iff hunit raw).2 h

/-- No line of an unguarded document holds a `><`; and what is laid out twice is laid out for
good. -/
theorem reflow_reflow_render {options : ReflowOptions} (hguard : options.guardLiterals = false)
    (raw : String) :
    (∀ line ∈ (reflow options raw).lines, ¬['>', '<'] <:+: line.text.toList) ∧
      (AllBlank options.indentUnit.toList →
        (trimStart (dropMark raw.toList)).head? ≠ some '\uFEFF' →
          reflow options (reflow options (reflow options raw).render).render =
            reflow options (reflow options raw).render) := by
  constructor
  · intro line hline
    rw [← holdsSplit_iff, holdsSplit_of_mem_reflow hguard hline]
    simp
  · intro hunit hmark
    have hfirst := head?_render_ne hunit hmark
    apply reflow_render_eq_self hunit
    · rwa [dropMark_of_head? (head?_ne_of_trimStart hfirst)]
    · exact keepsLiterals_of_holdsSplit options (holdsSplit_render hguard hunit raw)

/-- The first pass cuts this comment, and the second joins it again. -/
theorem reflow_reflow_render_comment :
    (∀ line ∈ (reflow .standard "<!--a><b>-->").lines, ¬['>', '<'] <:+: line.text.toList) ∧
      (reflow .standard (reflow .standard "<!--a><b>-->").render).lines.map Line.text =
        ["<!--a> <b> -->"] ∧
      reflow .standard (reflow .standard (reflow .standard "<!--a><b>-->").render).render =
        reflow .standard (reflow .standard "<!--a><b>-->").render := by
  have h := @reflow_reflow_render .standard rfl "<!--a><b>-->"
  exact ⟨h.1, by decide +kernel, h.2 (by decide) (by decide)⟩

end Markup

end PrettyMarkup
