import PrettyMarkup.Proofs.Grammar
import PrettyMarkup.Proofs.ReadBack

/-!
# Shapes of lines

A line of a document is a tag on one line or a stretch of character data, and only the last one may
lack the end of its tag.  Where literals are guarded, a comment and a CDATA section end at the first
closer that has no character in common with the opener.

## Implementation notes

What is said of every line but the last is shown once for any property of lines
(`of_mem_dropLast_linesOf`): it has to hold of the tags that are cut off, and of character data.
-/

namespace PrettyMarkup

namespace Markup

open Text

/-! ## Lines of either kind -/

section

variable {guards : Region → Bool} {line : List Char}

/-- A piece is laid out as a tag that is on one line, or as a line without a `<`. -/
theorem IsPiece.tag_or_data_of_mem_layOut {isLast : Prop} {piece : List Char}
    (h : IsPiece isLast piece) (hline : line ∈ layOut piece) :
    line.head? = some '<' ∧ '\r' ∉ line ∨ '<' ∉ line := by
  cases h with
  | lineFeed => simp at hline
  | data hne hlt hbreak =>
      rw [layOut_data (meetsTag_eq_false hlt)] at hline
      split at hline
      · simp at hline
      · obtain rfl := List.mem_singleton.1 hline
        exact Or.inr fun hmem => hlt (mem_of_mem_trim hmem)
  | tag hstart hstop =>
      obtain ⟨rest, rfl⟩ := List.head?_eq_some_iff.1 hstart
      rw [layOut_tag rfl] at hline
      obtain rfl := List.mem_singleton.1 hline
      left
      constructor
      · exact beq_iff_eq.1 (meetsTag_onOneLine rfl)
      · intro hmem
        have hbreak := isLineBreak_of_mem_onOneLine hmem
        simp [isLineBreak] at hbreak

theorem tag_or_data_of_mem_linesOf {source : List Char} (h : line ∈ linesOf guards source) :
    line.head? = some '<' ∧ '\r' ∉ line ∨ '<' ∉ line := by
  obtain ⟨piece, hpiece, hline⟩ := List.mem_flatMap.1 h
  obtain ⟨front, after, hpieces⟩ := List.append_of_mem hpiece
  have hsuffix : piece :: after <:+ pieces guards source := by
    rw [hpieces]
    exact List.suffix_append _ _
  exact (isPiece_of_suffix_pieces source hsuffix).tag_or_data_of_mem_layOut hline

/-! ## Lines but the last -/

theorem mem_dropLast_append {a b : List (List Char)} (h : line ∈ (a ++ b).dropLast) :
    line ∈ a ∨ line ∈ b.dropLast := by
  rw [List.dropLast_append] at h
  split at h
  · exact Or.inl (List.dropLast_subset a h)
  · exact List.mem_append.1 h

/-- A property of all tags that are cut off and of all character data, as they stand on lines, is
one of every line but the last. -/
theorem of_mem_dropLast_linesOf (property : List Char → Prop)
    (htag : ∀ source tag after, meetsTag source = true →
      cutTag? guards source = some (tag, after) → property (onOneLine tag))
    (hdata : ∀ line, '<' ∉ line → property line) {source : List Char}
    (h : line ∈ (linesOf guards source).dropLast) : property line := by
  induction source using pieces_induction guards with
  | nil => simp at h
  | tag source tag after hsource hcut ih =>
      rw [linesOf_tag hsource hcut, ← List.singleton_append] at h
      rcases mem_dropLast_append h with h | h
      · rw [List.mem_singleton.1 h]
        exact htag source tag after hsource hcut
      · exact ih h
  | unended source hsource hcut =>
      rw [linesOf_open hsource hcut] at h
      simp at h
  | line_feed rest ih =>
      rw [linesOf_break] at h
      exact ih h
  | data data rest hne hchars hrest ih =>
      rw [linesOf_data hne hchars hrest] at h
      rcases mem_dropLast_append h with h | h
      · apply hdata
        rw [layOut_data (meetsTag_of_isData hchars)] at h
        split at h
        · simp at h
        · rw [List.mem_singleton.1 h]
          exact fun hmem => not_mem_of_isData hchars (mem_of_mem_trim hmem)
      · exact ih h

/-- Every tag but the last has its end. -/
theorem getLast?_of_mem_dropLast_linesOf {source : List Char}
    (h : line ∈ (linesOf guards source).dropLast) (hline : line.head? = some '<') :
    line.getLast? = some '>' := by
  refine of_mem_dropLast_linesOf (fun line => line.head? = some '<' → line.getLast? = some '>')
    ?_ ?_ h hline
  · intro source tag after hsource hcut _
    obtain ⟨-, front, -, rfl⟩ := of_cutTag?_eq_some hsource hcut
    rw [onOneLine_concat (by decide), foldRuns_concat (by decide)]
    exact List.getLast?_concat
  · intro line hlt hhead
    exact absurd (List.mem_of_mem_head? hhead) hlt

end

/-! ## Guarded sections -/

/-- A CDATA section that ends at its first `]]>`. -/
structure IsClosedCdata (cdata : List Char) : Prop where
  opens : cdataOpen <+: cdata
  closes : cdataClose <:+ cdata
  eq_nil_of_eq_append : ∀ before after, cdata = before ++ cdataClose ++ after → after = []

theorem ofTagStart_cdataOpen (text : List Char) :
    Region.ofTagStart (Region.cdata.opener ++ text) = .cdata := by
  have hopener : Region.cdata.opener = cdataOpen := rfl
  have hcdata : cdataOpen.isPrefixOf (cdataOpen ++ text) = true :=
    List.isPrefixOf_iff_prefix.2 (List.prefix_append _ _)
  have hcomment : commentOpen.isPrefixOf (cdataOpen ++ text) = false := rfl
  rw [hopener, Region.ofTagStart, hcomment, hcdata]
  rfl

/-- No bracket of a closer stands in the opener, so a closer stands behind it. -/
theorem isClosedCdata_append {inside : List Char}
    (h : ∀ before after, inside ++ cdataClose = before ++ cdataClose ++ after → after = []) :
    IsClosedCdata (cdataOpen ++ (inside ++ cdataClose)) where
  opens := List.prefix_append _ _
  closes := (List.suffix_append _ _).trans (List.suffix_append _ _)
  eq_nil_of_eq_append := by
    intro before after heq
    rw [List.append_assoc before] at heq
    rcases List.append_eq_append_iff.1 heq with ⟨front, -, hrest⟩ | ⟨front, hopen, hrest⟩
    · exact h front after (by rw [hrest, List.append_assoc])
    · cases front with
      | nil =>
          rw [List.nil_append] at hrest
          exact h [] after (by rw [← hrest, List.nil_append])
      | cons c front =>
          have hclose : cdataClose = ']' :: [']', '>'] := rfl
          simp only [hclose, List.cons_append, List.cons.injEq] at hrest
          have hmem : ']' ∈ cdataOpen := by
            rw [hopen, hrest.1]
            exact List.mem_append_right before List.mem_cons_self
          exact absurd hmem (by decide)

section Guarded

variable {guards : Region → Bool} {source tag after : List Char}

/-- A CDATA section that is cut off is closed. -/
theorem isClosedCdata_of_cutTag? (hguard : guards .cdata = true) (hopen : cdataOpen <+: source)
    (h : cutTag? guards source = some (tag, after)) : IsClosedCdata tag := by
  obtain ⟨text, rfl⟩ := hopen
  obtain ⟨inside, rfl, hcut⟩ := exists_cut?_of_cutTag?_opener (ofTagStart_cdataOpen text) h
  obtain ⟨front, rfl, hfirst⟩ := Scan.exists_closer_of_cut? (.inr rfl) hguard hcut
  exact isClosedCdata_append hfirst

/-- Guarded comments and CDATA sections are closed on every line but the last. -/
theorem isClosed_of_mem_dropLast_linesOf {line : List Char}
    (h : line ∈ (linesOf (uniform true) source).dropLast) :
    (commentOpen <+: line → IsClosedComment line) ∧ (cdataOpen <+: line → IsClosedCdata line) := by
  refine of_mem_dropLast_linesOf (fun line => (commentOpen <+: line → IsClosedComment line) ∧
    (cdataOpen <+: line → IsClosedCdata line)) ?_ ?_ h
  · intro source tag after hsource hcut
    -- What a closer is looked for in is the line: the fold of a closed tag is a closed tag.
    have hline := (isClosed_of_cutTag? hsource hcut).isClosed_onOneLine.cutTag?_eq
    constructor
    · intro hopen
      exact isClosedComment_of_cutTag? rfl hopen hline
    · intro hopen
      exact isClosedCdata_of_cutTag? rfl hopen hline
  · intro line hlt
    constructor
    · intro hopen
      exact absurd (hopen.subset (by decide)) hlt
    · intro hopen
      exact absurd (hopen.subset (by decide)) hlt

end Guarded

/-! ## Whole documents -/

theorem mem_dropLast_linesOf_of_mem_reflow {options : ReflowOptions} {raw : String} {line : Line}
    (h : line ∈ (reflow options raw).lines.dropLast) :
    line.text.toList ∈
      (linesOf (uniform options.guardLiterals) (dropMark raw.toList)).dropLast := by
  rw [← map_text_reflow, ← List.map_dropLast]
  exact List.mem_map_of_mem h

/-- Every line is bare, and it is a tag on one line or character data.  Every tag but the last line
has its `>`; and where literals are guarded, comments and CDATA sections but the last line end at
the first closer they hold. -/
theorem reflow_shape (options : ReflowOptions) (raw : String) :
    let document := reflow options raw
    (∀ line ∈ document.lines, Bare line.text.toList ∧
      (line.text.toList.head? = some '<' ∧ '\r' ∉ line.text.toList ∨ '<' ∉ line.text.toList)) ∧
    (∀ line ∈ document.lines.dropLast,
      line.text.toList.head? = some '<' → line.text.toList.getLast? = some '>') ∧
    (options.guardLiterals = true → ∀ line ∈ document.lines.dropLast,
      (commentOpen <+: line.text.toList → IsClosedComment line.text.toList) ∧
        (cdataOpen <+: line.text.toList → IsClosedCdata line.text.toList)) := by
  intro document
  refine ⟨?_, ?_, ?_⟩
  · intro line hline
    exact ⟨bare_of_mem_reflow hline, tag_or_data_of_mem_linesOf (mem_linesOf_of_mem_reflow hline)⟩
  · intro line hline
    exact getLast?_of_mem_dropLast_linesOf (mem_dropLast_linesOf_of_mem_reflow hline)
  · intro hguard line hline
    have hmem := mem_dropLast_linesOf_of_mem_reflow hline
    rw [hguard] at hmem
    exact isClosed_of_mem_dropLast_linesOf hmem

/-- The dashes of `<!--` close nothing, and neither do brackets in front of a folded line break. -/
theorem reflow_shape_sections :
    let document := reflow ⟨"", true, false⟩ "<!-->a>\r\n --><![CDATA[]]\n>]]]><c"
    document.lines.map Line.text = ["<!-->a> -->", "<![CDATA[]] >]]]>", "<c"] ∧
      IsClosedComment "<!-->a> -->".toList ∧ IsClosedCdata "<![CDATA[]] >]]]>".toList := by
  intro document
  have hlines : document.lines =
      [⟨"<!-->a> -->", 0⟩, ⟨"<![CDATA[]] >]]]>", 0⟩, ⟨"<c", 1⟩] := by decide +kernel
  have h := (reflow_shape ⟨"", true, false⟩ "<!-->a>\r\n --><![CDATA[]]\n>]]]><c").2.2 rfl
  refine ⟨by rw [hlines]; rfl, ?_, ?_⟩
  · exact (h ⟨"<!-->a> -->", 0⟩ (by rw [hlines]; simp)).1 (by decide)
  · exact (h ⟨"<![CDATA[]] >]]]>", 0⟩ (by rw [hlines]; simp)).2 (by decide)

end Markup

end PrettyMarkup
