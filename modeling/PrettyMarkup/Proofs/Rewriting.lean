import PrettyMarkup.Proofs.FixedPoints

/-!
# Laying out rewrites blanks only

A raw text is cut into consecutive pieces, and each line of its document is one of them in normal
form: data is trimmed, and a tag is put on one line.  The pieces whose normal form is empty have no
line.  So nothing but blanks is ever lost, moved or added.

The pieces are described here by themselves (`IsPiece`), without the search for the end of a tag
that finds them.
-/

namespace PrettyMarkup

namespace Markup

open Text

/-- A line feed, a stretch of character data on one line, or a tag.  Only a tag that is the last
piece of its text may lack its `>`. -/
inductive IsPiece (isLast : Prop) : List Char → Prop
  | lineFeed : IsPiece isLast ['\n']
  | data {piece : List Char} (hne : piece ≠ []) (hlt : '<' ∉ piece) (hbreak : '\n' ∉ piece) :
      IsPiece isLast piece
  | tag {piece : List Char} (hstart : piece.head? = some '<')
      (hstop : piece.getLast? = some '>' ∨ isLast) : IsPiece isLast piece

/-- A piece as it stands on a line. -/
def normalForm (piece : List Char) : List Char :=
  if piece.head? = some '<' then onOneLine piece else trim piece

section

variable {guards : Region → Bool}

/-- Every piece of a text is of one of the three kinds. -/
theorem isPiece_of_suffix_pieces (source : List Char) {piece : List Char}
    {after : List (List Char)} (h : piece :: after <:+ pieces guards source) :
    IsPiece (after = []) piece := by
  induction source using pieces_induction guards with
  | nil =>
      rw [pieces_nil, List.suffix_nil] at h
      simp at h
  | tag source tag rest hsource hcut ih =>
      rw [pieces_tag hsource hcut, List.suffix_cons_iff] at h
      rcases h with h | h
      · obtain ⟨rfl, -⟩ := List.cons.inj h
        obtain ⟨-, front, hfront, rfl⟩ := of_cutTag?_eq_some hsource hcut
        obtain ⟨front, rfl⟩ := exists_of_meetsTag hfront
        apply IsPiece.tag rfl
        left
        exact List.getLast?_concat
      · exact ih h
  | unended source hsource hcut =>
      rw [pieces_open hsource hcut, List.suffix_cons_iff, List.suffix_nil] at h
      rcases h with h | h
      · obtain ⟨rfl, rfl⟩ := List.cons.inj h
        obtain ⟨rest, rfl⟩ := exists_of_meetsTag hsource
        exact .tag rfl (Or.inr rfl)
      · simp at h
  | line_feed rest ih =>
      rw [pieces_break, List.suffix_cons_iff] at h
      rcases h with h | h
      · obtain ⟨rfl, -⟩ := List.cons.inj h
        exact .lineFeed
      · exact ih h
  | data data rest hne hdata hrest ih =>
      rw [pieces_data hne hdata hrest, List.suffix_cons_iff] at h
      rcases h with h | h
      · obtain ⟨rfl, -⟩ := List.cons.inj h
        apply IsPiece.data hne (not_mem_of_isData hdata)
        intro hmem
        exact absurd (hdata '\n' hmem) (by decide)
      · exact ih h

/-- The lines of a text are the normal forms of its pieces that are not empty. -/
theorem linesOf_eq_filter (source : List Char) :
    linesOf guards source =
      ((pieces guards source).map normalForm).filter fun line => !line.isEmpty := by
  have hlayOut : ∀ piece, layOut piece =
      [normalForm piece].filter fun line => !line.isEmpty := by
    intro piece
    rw [layOut, normalForm, List.filter_cons, List.filter_nil]
    simp [meetsTag, ite_not]
  rw [linesOf]
  induction pieces guards source with
  | nil => rfl
  | cons piece rest ih =>
      rw [List.flatMap_cons, ih, hlayOut, List.map_cons, ← List.filter_append,
        List.singleton_append]

/-- Only a blank text has no lines. -/
theorem linesOf_eq_nil_iff (guards : Region → Bool) {source : List Char} :
    linesOf guards source = [] ↔ AllBlank source := by
  constructor
  · intro hnil
    have hkept := eraseBlanks_linesOf guards source
    rw [hnil, List.flatten_nil] at hkept
    exact eraseBlanks_eq_nil_iff.1 hkept.symm
  · intro hblank
    have hlines := @linesOf_blanks guards source hblank []
    rwa [List.append_nil, linesOf_nil] at hlines

end

/-- The lines of a document are the normal forms of consecutive pieces of the raw text, without
those that are empty.  So only blanks are rewritten, and only a blank text has an empty document. -/
theorem exists_pieces_reflow (options : ReflowOptions) (raw : String) :
    (∃ parts : List (List Char), parts.flatten = dropMark raw.toList ∧
        (∀ piece after, piece :: after <:+ parts → IsPiece (after = []) piece) ∧
        (reflow options raw).lines.map (fun line => line.text.toList) =
          (parts.map normalForm).filter fun line => !line.isEmpty) ∧
      eraseBlanks ((reflow options raw).lines.flatMap fun line => line.text.toList) =
        eraseBlanks (dropMark raw.toList) ∧
      ((reflow options raw).lines = [] ↔ AllBlank (dropMark raw.toList)) := by
  refine ⟨⟨pieces (uniform options.guardLiterals) (dropMark raw.toList), ?_, ?_, ?_⟩, ?_, ?_⟩
  · exact flatten_pieces _
  · intro piece after
    exact isPiece_of_suffix_pieces _
  · rw [map_text_reflow, linesOf_eq_filter]
  · rw [List.flatMap_def, map_text_reflow, eraseBlanks_linesOf]
  · rw [← linesOf_eq_nil_iff (uniform options.guardLiterals), ← map_text_reflow,
      List.map_eq_nil_iff]

end Markup

end PrettyMarkup
