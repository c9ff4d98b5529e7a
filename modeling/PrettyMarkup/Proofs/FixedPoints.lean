import PrettyMarkup.Proofs.SplitLiterals

/-!
# Documents that are laid out as themselves

Laying out a rendered document again gives the same document, but for two reasons.  A byte order
mark at its front is dropped; and a split literal is joined again, since the line feed at the
split hides the `<` from the `>` before it.  Both show in what a text keeps when its blanks are
erased: dropping a mark makes it shorter, and joining makes a line longer.
-/

namespace PrettyMarkup

namespace Markup

open Text

/-! ## What is kept -/

theorem eraseBlanks_layOut (piece : List Char) :
    eraseBlanks (layOut piece).flatten = eraseBlanks piece := by
  cases hmeets : meetsTag piece with
  | true => rw [layOut_tag hmeets, List.flatten_singleton, eraseBlanks_onOneLine]
  | false =>
      rw [layOut_data hmeets]
      split
      · rename_i hempty
        rw [List.flatten_nil, ← eraseBlanks_trim piece, List.isEmpty_iff.1 hempty]
      · rw [List.flatten_singleton, eraseBlanks_trim]

/-- Laying out keeps every character that is not blank. -/
theorem eraseBlanks_linesOf (guards : Region → Bool) (source : List Char) :
    eraseBlanks (linesOf guards source).flatten = eraseBlanks source := by
  have hpieces : ∀ pieces : List (List Char),
      eraseBlanks (pieces.flatMap layOut).flatten = eraseBlanks pieces.flatten := by
    intro pieces
    induction pieces with
    | nil => rfl
    | cons piece pieces ih =>
        rw [List.flatMap_cons, List.flatten_append, eraseBlanks_append, eraseBlanks_layOut, ih,
          List.flatten_cons, eraseBlanks_append]
  rw [linesOf, hpieces, flatten_pieces]

section

variable {unit : List Char} (hunit : AllBlank unit)

include hunit

/-- Rendering keeps every character that is not blank, and adds none. -/
theorem eraseBlanks_rendered (lines : List Line) :
    eraseBlanks (rendered unit lines) =
      eraseBlanks (lines.map fun line => line.text.toList).flatten := by
  induction lines with
  | nil => rfl
  | cons line lines ih =>
      obtain ⟨rest, hrendered, hrest⟩ := exists_rendered_cons unit line lines
      have hindent := eraseBlanks_eq_nil_iff.2 (line.allBlank_indent hunit)
      have hline : eraseBlanks (line.render unit) = eraseBlanks line.text.toList := by
        rw [Line.render_eq, eraseBlanks_append, hindent, List.nil_append]
      have hkept : eraseBlanks rest = eraseBlanks (rendered unit lines) := by
        rcases hrest with ⟨rfl, rfl⟩ | rfl
        · rfl
        · rfl
      calc
        eraseBlanks (rendered unit (line :: lines))
          = eraseBlanks line.text.toList ++ eraseBlanks (rendered unit lines) := by
            rw [hrendered, eraseBlanks_append, hline, hkept]
        _ = eraseBlanks ((line :: lines).map fun line => line.text.toList).flatten := by
            rw [ih, List.map_cons, List.flatten_cons, eraseBlanks_append]

/-! ## Split literals are joined -/

/-- The front of a split literal is joined to what follows it: the lines before it are laid out as
themselves, and its line keeps more than the front. -/
theorem exists_linesOf_joined {guards : Region → Bool} {settled : List Line} {first second : Line}
    (hsettled : ∀ line ∈ settled, Settled guards line.text.toList)
    (hopen : Unended guards first.text.toList) (hnext : meetsTag second.text.toList = true)
    (others : List Line) :
    ∃ inside rest, linesOf guards (rendered unit (settled ++ first :: second :: others)) =
        settled.map (fun line => line.text.toList) ++
          onOneLine (first.text.toList ++ ('\n' :: second.indent unit ++ inside)) :: rest ∧
      eraseBlanks inside ≠ [] := by
  obtain ⟨text, inside, more, hrendered, hpieces, hinside⟩ :=
    exists_pieces_rendered hunit hopen hnext others
  have hmeets := meetsTag_append_of_meetsTag hopen.isOpen.meetsTag_eq
    ('\n' :: second.indent unit ++ inside)
  refine ⟨inside, more.flatMap layOut, ?_, hinside⟩
  rw [linesOf_rendered_append hunit hsettled, hrendered,
    linesOf_blanks (first.allBlank_indent hunit), linesOf, hpieces, List.flatMap_cons,
    layOut_tag hmeets]
  rfl

/-- Lines with a split literal are not laid out as themselves. -/
theorem linesOf_rendered_ne {lines : List Line} {front more : List (List Char)}
    {line next : List Char}
    (hlines : lines.map (fun line => line.text.toList) = front ++ line :: next :: more)
    (hsplit : SplitLines front line next) (guards : Region → Bool) :
    linesOf guards (rendered unit lines) ≠ lines.map fun line => line.text.toList := by
  obtain ⟨settled, first, second, others, rfl, hsettled, hopen, hnext⟩ :=
    exists_lines_of_split hlines hsplit
  obtain ⟨inside, rest, hjoined, hinside⟩ :=
    exists_linesOf_joined hunit (hsettled guards) (hopen guards) hnext others
  rw [hjoined, List.map_append, Ne, List.append_cancel_left_eq, List.map_cons]
  -- The joined line keeps more than the line it started with.
  intro heq
  have hkept := congrArg eraseBlanks (List.cons.inj heq).1
  rw [eraseBlanks_onOneLine, eraseBlanks_append, eraseBlanks_append, List.append_right_eq_self,
    List.append_eq_nil_iff] at hkept
  exact hinside hkept.2

end

/-! ## Fixed points -/

/-- Only a mark at the front is dropped. -/
theorem dropMark_of_head? {source : List Char} (h : source.head? ≠ some '\uFEFF') :
    dropMark source = source := by
  rw [dropMark.eq_def]
  split
  · simp at h
  · rfl

section

variable {options : ReflowOptions} (hunit : AllBlank options.indentUnit.toList) (raw : String)

include hunit

/-- The rendered document keeps what the raw text keeps. -/
theorem eraseBlanks_render :
    eraseBlanks (reflow options raw).render.toList = eraseBlanks (dropMark raw.toList) := by
  rw [toList_render_reflow, eraseBlanks_rendered hunit, map_text_reflow, eraseBlanks_linesOf]

/-- Read again without a mark at its front, a document has the same lines exactly if no literal
was split. -/
theorem linesOf_render_eq_iff :
    linesOf (uniform options.guardLiterals) (reflow options raw).render.toList =
        linesOf (uniform options.guardLiterals) (dropMark raw.toList) ↔
      KeepsLiterals options raw := by
  rw [toList_render_reflow, ← map_text_reflow]
  constructor
  · intro heq
    by_contra hsplit
    obtain ⟨front, line, next, more, hcat, hpoint⟩ := exists_splitLines hsplit
    exact linesOf_rendered_ne hunit hcat hpoint _ heq
  · intro hkeeps
    obtain ⟨front, last, hcat, hfront, hlast⟩ :=
      hkeeps.exists_settled fun hguard => congrArg uniform hguard
    exact linesOf_rendered hunit hcat hfront hlast

/-- A mark at the front of a document is missing when the document is read again. -/
theorem linesOf_dropMark_render_ne {rest : List Char}
    (h : (reflow options raw).render.toList = '\uFEFF' :: rest) (guards : Region → Bool) :
    linesOf guards (dropMark (reflow options raw).render.toList) ≠
      linesOf guards (dropMark raw.toList) := by
  have hmark : isBlank '\uFEFF' = false := by decide
  have hdrop : dropMark ('\uFEFF' :: rest) = rest := rfl
  have hkept := eraseBlanks_render hunit raw
  rw [h, eraseBlanks_cons hmark] at hkept
  rw [h, hdrop]
  intro heq
  have hless := congrArg (fun lines => eraseBlanks lines.flatten) heq
  simp only [eraseBlanks_linesOf, ← hkept] at hless
  exact List.cons_ne_self _ _ hless.symm

/-- A document is laid out as itself exactly if it does not start with a mark and no literal was
split; a guarded one is so wherever the raw text does not start with a second mark. -/
theorem reflow_render_eq_self_iff :
    (reflow options (reflow options raw).render = reflow options raw ↔
        (reflow options raw).render.toList.head? ≠ some '\uFEFF' ∧ KeepsLiterals options raw) ∧
      (options.guardLiterals = true → (trimStart (dropMark raw.toList)).head? ≠ some '\uFEFF' →
        reflow options (reflow options raw).render = reflow options raw) := by
  have hiff : reflow options (reflow options raw).render = reflow options raw ↔
      (reflow options raw).render.toList.head? ≠ some '\uFEFF' ∧ KeepsLiterals options raw := by
    rw [reflow_eq_iff, ← linesOf_render_eq_iff hunit]
    by_cases hhead : (reflow options raw).render.toList.head? = some '\uFEFF'
    · obtain ⟨rest, hrest⟩ := List.head?_eq_some_iff.1 hhead
      exact iff_of_false (linesOf_dropMark_render_ne hunit raw hrest _) fun h => h.1 hhead
    · rw [dropMark_of_head? hhead, and_iff_right hhead]
  constructor
  · exact hiff
  · intro hguard hfirst
    apply hiff.2
    refine ⟨?_, Or.inl hguard⟩
    -- The document would start with the first character that the raw text keeps.
    intro hhead
    obtain ⟨rest, hrest⟩ := List.head?_eq_some_iff.1 hhead
    have hmark : isBlank '\uFEFF' = false := by decide
    apply hfirst
    rw [head?_trimStart, ← eraseBlanks_render hunit raw, hrest, eraseBlanks_cons hmark]
    rfl

end

/-- A comment that was split at its `><` is one tag when it is read again. -/
theorem reflow_render_ne_self_of_comment :
    AllBlank ReflowOptions.standard.indentUnit.toList ∧
      reflow .standard (reflow .standard "<!--a><b>-->").render ≠
        reflow .standard "<!--a><b>-->" := by
  have hunit : AllBlank ReflowOptions.standard.indentUnit.toList := by decide
  have hsplit : ¬ KeepsLiterals .standard "<!--a><b>-->" := by decide
  exact ⟨hunit, fun heq => hsplit ((reflow_render_eq_self_iff hunit _).1.1 heq).2⟩

end Markup

end PrettyMarkup
