import PrettyMarkup.Markup.Document
import PrettyMarkup.Proofs.Reading

/-!
# Lines and their rendering

The lines of a document are settled: each is a tag that is whole, or data that is trimmed, and
only the last one may be a tag without end.  A settled line is laid out as itself wherever it
stands, and the blanks in front of it do not count; so a rendered document is laid out as the
lines that it was rendered from (`linesOf_rendered`).

## Implementation notes

Which literals are guarded matters only for tags that hold a `><`; a line is settled for some
guards if all literals are guarded or the line holds none.
-/

namespace PrettyMarkup

namespace Markup

open Text

/-- The lines that the pieces of a text are laid out as. -/
def linesOf (guards : Region → Bool) (source : List Char) : List (List Char) :=
  (pieces guards source).flatMap layOut

theorem fragments_eq_linesOf (guard : Bool) (source : List Char) :
    fragments guard source = linesOf (uniform guard) source := fragments_eq guard source

/-- A guarded tag that is nothing but a tag. -/
structure IsClosed (tag : List Char) : Prop where
  meetsTag_eq : meetsTag tag = true
  cutTag?_eq : cutTag? (uniform true) tag = some (tag, [])

/-- A guarded tag that has no end. -/
structure IsOpen (tag : List Char) : Prop where
  meetsTag_eq : meetsTag tag = true
  cutTag?_eq : cutTag? (uniform true) tag = none

section

variable {guards : Region → Bool} {source tag line : List Char}

theorem IsClosed.eq_concat (h : IsClosed tag) :
    ∃ front, meetsTag front = true ∧ tag = front ++ ['>'] :=
  (of_cutTag?_eq_some h.meetsTag_eq h.cutTag?_eq).2

/-- A whole tag is cut off whatever follows it, if no literal of it is split. -/
theorem IsClosed.cutTag?_append (h : IsClosed tag)
    (hsplit : guards = uniform true ∨ holdsSplit tag = false) (rest : List Char) :
    cutTag? guards (tag ++ rest) = some (tag, rest) :=
  cutTag?_append_of_closed h.meetsTag_eq h.cutTag?_eq hsplit rest

theorem isClosed_of_cutTag? {after : List Char} (hsource : meetsTag source = true)
    (h : cutTag? (uniform true) source = some (tag, after)) : IsClosed tag :=
  ⟨meetsTag_of_cutTag? hsource h, cutTag?_inside hsource h⟩

/-! ## Tags on one line -/

theorem holdsSplit_onOneLine (text : List Char) :
    holdsSplit (onOneLine text) = holdsSplit text := by
  obtain ⟨blanks, hblanks, hcat⟩ := exists_trimEnd_append (foldRuns text)
  have hlt : '<' ∉ blanks := not_mem_of_allBlank hblanks (by decide)
  calc
    holdsSplit (onOneLine text) = holdsSplit (onOneLine text ++ blanks) :=
      (holdsSplit_append_of_not_mem hlt _).symm
    _ = holdsSplit (foldRuns text) := by rw [onOneLine, ← hcat]
    _ = holdsSplit text := (holdsSplit_respaced (.foldRuns text)).symm

theorem meetsTag_onOneLine {text : List Char} (h : meetsTag text = true) :
    meetsTag (onOneLine text) = true := by
  obtain ⟨rest, rfl⟩ := exists_of_meetsTag h
  rw [onOneLine_cons (by decide)]
  rfl

theorem IsClosed.onOneLine_eq (h : IsClosed tag) : onOneLine tag = foldRuns tag := by
  obtain ⟨front, -, rfl⟩ := h.eq_concat
  exact onOneLine_concat (by decide) front

/-- A whole tag is whole on one line. -/
theorem IsClosed.isClosed_onOneLine (h : IsClosed tag) : IsClosed (onOneLine tag) := by
  have hcut := cutTag?_respaced (uniform true) h.meetsTag_eq (.foldRuns tag)
  rw [h.cutTag?_eq] at hcut
  have hmeets := meetsTag_onOneLine h.meetsTag_eq
  rw [← h.onOneLine_eq] at hcut
  generalize hline : cutTag? (uniform true) (onOneLine tag) = cut at hcut
  cases hcut with
  | @some _ q hcut =>
      obtain ⟨inside, after⟩ := q
      obtain rfl : after = [] := hcut.2.nil_left
      obtain ⟨hcat, -⟩ := of_cutTag?_eq_some hmeets hline
      rw [List.append_nil] at hcat
      exact ⟨hmeets, by rw [hline, hcat]⟩

/-- A tag without end has no end before its last blanks. -/
theorem IsOpen.trimEnd (h : IsOpen tag) : IsOpen (trimEnd tag) := by
  obtain ⟨blanks, -, hcat⟩ := exists_trimEnd_append tag
  have hmeets : meetsTag (Text.trimEnd tag) = true := by
    obtain ⟨rest, rfl⟩ := exists_of_meetsTag h.meetsTag_eq
    rw [trimEnd_cons (by decide)]
    rfl
  constructor
  · exact hmeets
  · rw [← Option.not_isSome_iff_eq_none, Option.isSome_iff_exists]
    rintro ⟨⟨inside, after⟩, hcut⟩
    have hclosed := isClosed_of_cutTag? hmeets hcut
    have hopen := h.cutTag?_eq
    rw [hcat, ← (of_cutTag?_eq_some hmeets hcut).1, List.append_assoc,
      hclosed.cutTag?_append (Or.inl rfl)] at hopen
    simp at hopen

/-- A tag without end has none on one line. -/
theorem IsOpen.isOpen_onOneLine (h : IsOpen tag) : IsOpen (onOneLine tag) := by
  have hcut := cutTag?_respaced (uniform true) h.meetsTag_eq (.foldRuns tag)
  rw [h.cutTag?_eq] at hcut
  generalize hline : cutTag? (uniform true) (foldRuns tag) = cut at hcut
  cases hcut with
  | none =>
      have hmeets : meetsTag (foldRuns tag) = true := by
        rw [← meetsTag_respaced (.foldRuns tag), h.meetsTag_eq]
      exact IsOpen.trimEnd ⟨hmeets, hline⟩

/-! ## Settled lines -/

/-- A line that is laid out as itself, if literals are guarded as `guards` says. -/
inductive Settled (guards : Region → Bool) : List Char → Prop
  | tag {line : List Char} (hclosed : IsClosed line) (hline : onOneLine line = line)
      (hsplit : guards = uniform true ∨ holdsSplit line = false) : Settled guards line
  | data {line : List Char} (hne : line ≠ []) (hdata : ∀ c ∈ line, isData c = true)
      (hline : trim line = line) : Settled guards line

/-- A line that is laid out as itself at the end of a text. -/
structure Unended (guards : Region → Bool) (line : List Char) : Prop where
  isOpen : IsOpen line
  onOneLine_eq : onOneLine line = line
  guarded_or : guards = uniform true ∨ holdsSplit line = false

theorem Unended.cutTag?_eq (h : Unended guards line) : cutTag? guards line = none :=
  cutTag?_eq_none_of_open h.isOpen.meetsTag_eq h.isOpen.cutTag?_eq h.guarded_or

/-- No literal is split, or literals are guarded. -/
def Unsplit (guards : Region → Bool) (pieces : List (List Char)) : Prop :=
  guards = uniform true ∨ ∀ piece ∈ pieces, meetsTag piece = true → holdsSplit piece = false

theorem unsplit_cons {piece : List Char} {pieces : List (List Char)} :
    Unsplit guards (piece :: pieces) ↔
      (guards = uniform true ∨ (meetsTag piece = true → holdsSplit piece = false)) ∧
        Unsplit guards pieces := by
  simp only [Unsplit, List.mem_cons, forall_eq_or_imp]
  exact or_and_left

section Unsplit

variable {piece : List Char} {pieces : List (List Char)}

theorem Unsplit.head (h : Unsplit guards (piece :: pieces)) (hmeets : meetsTag piece = true) :
    guards = uniform true ∨ holdsSplit piece = false := by
  rcases (unsplit_cons.1 h).1 with hguards | hsplit
  · exact Or.inl hguards
  · exact Or.inr (hsplit hmeets)

theorem Unsplit.tail (h : Unsplit guards (piece :: pieces)) : Unsplit guards pieces :=
  (unsplit_cons.1 h).2

/-- The split literal stands behind a piece that holds none. -/
theorem not_unsplit_tail (h : ¬ Unsplit guards (piece :: pieces))
    (hpiece : meetsTag piece = true → holdsSplit piece = false) : ¬ Unsplit guards pieces := by
  intro hunsplit
  exact h (unsplit_cons.2 ⟨Or.inr hpiece, hunsplit⟩)

end Unsplit

/-- A tag is laid out on one line. -/
theorem layOut_tag (h : meetsTag tag = true) : layOut tag = [onOneLine tag] := by
  have hline := meetsTag_onOneLine h
  rw [layOut, if_pos h]
  cases hempty : (onOneLine tag).isEmpty with
  | true => simp [List.isEmpty_iff.1 hempty, meetsTag] at hline
  | false => rfl

theorem layOut_data {data : List Char} (h : meetsTag data = false) :
    layOut data = if (trim data).isEmpty then [] else [trim data] := by
  simp [layOut, h]

/-- A whole tag is laid out as a settled line. -/
theorem IsClosed.settled (h : IsClosed tag)
    (hsplit : guards = uniform true ∨ holdsSplit tag = false) : Settled guards (onOneLine tag) :=
  .tag h.isClosed_onOneLine (onOneLine_onOneLine tag) (by rwa [holdsSplit_onOneLine])

/-- A tag without end is laid out as one. -/
theorem IsOpen.unended (h : IsOpen tag)
    (hsplit : guards = uniform true ∨ holdsSplit tag = false) : Unended guards (onOneLine tag) :=
  ⟨h.isOpen_onOneLine, onOneLine_onOneLine tag, by rwa [holdsSplit_onOneLine]⟩

/-- A line of character data is laid out as a settled line, or not at all. -/
theorem settled_of_mem_layOut {data : List Char} (h : ∀ c ∈ data, isData c = true)
    (hline : line ∈ layOut data) : Settled guards line := by
  rw [layOut_data (meetsTag_of_isData h)] at hline
  split at hline
  · simp at hline
  · rename_i hempty
    obtain rfl := List.mem_singleton.1 hline
    refine .data (by simpa using hempty) ?_ (trim_trim data)
    intro c hc
    exact h c (mem_of_mem_trim hc)

/-- Where no literal is split, every guard gives the same pieces. -/
theorem pieces_of_unsplit (h : Unsplit guards (pieces (uniform true) source)) :
    pieces guards source = pieces (uniform true) source := by
  induction source using pieces_induction (uniform true) with
  | nil => rw [pieces_nil, pieces_nil]
  | tag source tag after hsource hcut ih =>
      rw [pieces_tag hsource hcut] at h
      have hclosed := isClosed_of_cutTag? hsource hcut
      have hwhole := hclosed.cutTag?_append (h.head hclosed.meetsTag_eq) after
      rw [(of_cutTag?_eq_some hsource hcut).1] at hwhole
      rw [pieces_tag hsource hcut, pieces_tag hsource hwhole, ih h.tail]
  | unended source hsource hcut =>
      rw [pieces_open hsource hcut] at h
      have hopen := cutTag?_eq_none_of_open hsource hcut (h.head hsource)
      rw [pieces_open hsource hcut, pieces_open hsource hopen]
  | line_feed rest ih =>
      rw [pieces_break] at h
      rw [pieces_break, pieces_break, ih h.tail]
  | data data rest hne hdata hrest ih =>
      rw [pieces_data hne hdata hrest] at h
      rw [pieces_data hne hdata hrest, pieces_data hne hdata hrest, ih h.tail]

/-! ## Lines of a text -/

section LinesOf

@[simp] theorem linesOf_nil : linesOf guards [] = [] := by
  rw [linesOf, pieces_nil, List.flatMap_nil]

theorem linesOf_tag {after : List Char} (hsource : meetsTag source = true)
    (h : cutTag? guards source = some (tag, after)) :
    linesOf guards source = onOneLine tag :: linesOf guards after := by
  have hmeets := meetsTag_of_cutTag? hsource h
  rw [linesOf, pieces_tag hsource h, List.flatMap_cons, layOut_tag hmeets, ← linesOf]
  rfl

theorem linesOf_open (hsource : meetsTag source = true) (h : cutTag? guards source = none) :
    linesOf guards source = [onOneLine source] := by
  rw [linesOf, pieces_open hsource h, List.flatMap_singleton, layOut_tag hsource]

theorem linesOf_break (rest : List Char) : linesOf guards ('\n' :: rest) = linesOf guards rest := by
  rw [linesOf, pieces_break, List.flatMap_cons, layOut_break, List.nil_append, ← linesOf]

theorem linesOf_data {data rest : List Char} (hne : data ≠ []) (hdata : ∀ c ∈ data, isData c = true)
    (hrest : ∀ c ∈ rest.head?, isData c = false) :
    linesOf guards (data ++ rest) = layOut data ++ linesOf guards rest := by
  rw [linesOf, pieces_data hne hdata hrest, List.flatMap_cons, ← linesOf]

/-- Blanks in front of a text do not count. -/
theorem linesOf_blanks {blanks : List Char} (h : AllBlank blanks) (source : List Char) :
    linesOf guards (blanks ++ source) = linesOf guards source := by
  induction blanks with
  | nil => rfl
  | cons c blanks ih =>
      obtain ⟨hc, hblanks⟩ := allBlank_cons.1 h
      have hlt : c ≠ '<' := ne_of_isBlank hc (by decide)
      rw [List.cons_append, ← ih hblanks]
      obtain ⟨data, rest, hdata, -, hlong, hshort⟩ :=
        exists_pieces_cons guards hlt (blanks ++ source)
      have hmeets : meetsTag data = false := meetsTag_eq_false hdata
      have hmeets' : meetsTag (c :: data) = false := by simp [meetsTag, hlt]
      have htrim : trim (c :: data) = trim data :=
        trim_append_of_allBlank (allBlank_cons.2 ⟨hc, allBlank_nil⟩) data
      rw [linesOf, linesOf, hlong, hshort, List.flatMap_cons, List.flatMap_append,
        layOut_data hmeets', htrim]
      cases data with
      | nil => rfl
      | cons d data =>
          rw [← layOut_data hmeets]
          simp

/-- A settled line is laid out as itself. -/
theorem linesOf_settled (h : Settled guards line) {rest : List Char}
    (hrest : rest = [] ∨ rest.head? = some '\n') :
    linesOf guards (line ++ rest) = line :: linesOf guards rest := by
  cases h with
  | tag hclosed hline hsplit =>
      have hmeets := meetsTag_append_of_meetsTag hclosed.meetsTag_eq rest
      rw [linesOf_tag hmeets (hclosed.cutTag?_append hsplit rest), hline]
  | data hne hdata hline =>
      have hbreak : ∀ c ∈ rest.head?, isData c = false := by
        intro c hc
        rcases hrest with rfl | hrest
        · simp at hc
        · rw [hrest, Option.mem_some] at hc
          subst hc
          decide
      rw [linesOf_data hne hdata hbreak, layOut_data (meetsTag_of_isData hdata), hline]
      simp [hne]

/-- A tag without end is laid out as itself at the end of a text. -/
theorem linesOf_unended (h : Unended guards line) : linesOf guards line = [line] := by
  rw [linesOf_open h.isOpen.meetsTag_eq h.cutTag?_eq, h.onOneLine_eq]

/-- The lines of a text are settled, up to a tag without end. -/
theorem exists_settled (h : Unsplit guards (pieces (uniform true) source)) :
    ∃ front last, linesOf (uniform true) source = front ++ last ∧
      (∀ line ∈ front, Settled guards line) ∧
      (last = [] ∨ ∃ line, last = [line] ∧ Unended guards line) := by
  induction source using pieces_induction (uniform true) with
  | nil => exact ⟨[], [], linesOf_nil, by simp, Or.inl rfl⟩
  | tag source tag after hsource hcut ih =>
      rw [pieces_tag hsource hcut] at h
      obtain ⟨front, last, hlines, hfront, hlast⟩ := ih h.tail
      have hclosed := isClosed_of_cutTag? hsource hcut
      refine ⟨onOneLine tag :: front, last, ?_, ?_, hlast⟩
      · rw [linesOf_tag hsource hcut, hlines, List.cons_append]
      · intro line hline
        rcases List.mem_cons.1 hline with rfl | hline
        · exact hclosed.settled (h.head hclosed.meetsTag_eq)
        · exact hfront line hline
  | unended source hsource hcut =>
      rw [pieces_open hsource hcut] at h
      have hopen : IsOpen source := ⟨hsource, hcut⟩
      have hlast := hopen.unended (h.head hsource)
      exact ⟨[], [_], linesOf_open hsource hcut, by simp, Or.inr ⟨_, rfl, hlast⟩⟩
  | line_feed rest ih =>
      rw [pieces_break] at h
      rw [linesOf_break]
      exact ih h.tail
  | data data rest hne hdata hrest ih =>
      rw [pieces_data hne hdata hrest] at h
      obtain ⟨front, last, hlines, hfront, hlast⟩ := ih h.tail
      refine ⟨layOut data ++ front, last, ?_, ?_, hlast⟩
      · rw [linesOf_data hne hdata hrest, hlines, List.append_assoc]
      · intro line hline
        rcases List.mem_append.1 hline with hline | hline
        · exact settled_of_mem_layOut hdata hline
        · exact hfront line hline

end LinesOf

end

/-! ## Rendered lines -/

/-- The blanks in front of a line. -/
def Line.indent (unit : List Char) (line : Line) : List Char :=
  (List.replicate line.depth unit).flatten

theorem Line.render_eq (unit : List Char) (line : Line) :
    line.render unit = line.indent unit ++ line.text.toList := rfl

/-- Lines as they stand in a rendered document. -/
def rendered (unit : List Char) (lines : List Line) : List Char :=
  ['\n'].intercalate (lines.map (Line.render unit))

theorem toList_render (document : Document) :
    document.render.toList = rendered document.indentUnit.toList document.lines := by
  rw [Document.render, String.toList_ofList, rendered]

section Rendered

variable {unit : List Char}

@[simp] theorem rendered_nil : rendered unit [] = [] := rfl

@[simp] theorem rendered_singleton (line : Line) : rendered unit [line] = line.render unit := by
  simp [rendered]

theorem rendered_cons {lines : List Line} (h : lines ≠ []) (line : Line) :
    rendered unit (line :: lines) = line.render unit ++ '\n' :: rendered unit lines := by
  obtain ⟨next, more, rfl⟩ := List.exists_cons_of_ne_nil h
  simp [rendered, List.intercalate_cons_cons]

/-- Behind a line nothing follows, or a line feed. -/
theorem exists_rendered_cons (unit : List Char) (line : Line) (lines : List Line) :
    ∃ rest, rendered unit (line :: lines) = line.render unit ++ rest ∧
      (rest = [] ∧ lines = [] ∨ rest = '\n' :: rendered unit lines) := by
  by_cases h : lines = []
  · exact ⟨[], by simp [h], Or.inl ⟨rfl, h⟩⟩
  · exact ⟨_, rendered_cons h line, Or.inr rfl⟩

variable {guards : Region → Bool} (hunit : AllBlank unit)

include hunit

theorem Line.allBlank_indent (line : Line) : AllBlank (line.indent unit) :=
  allBlank_replicate_flatten hunit line.depth

/-- A rendered line that is settled is laid out as the line. -/
theorem linesOf_render_append {line : Line} (hline : Settled guards line.text.toList)
    {rest : List Char} (hrest : rest = [] ∨ rest.head? = some '\n') :
    linesOf guards (line.render unit ++ rest) = line.text.toList :: linesOf guards rest := by
  rw [Line.render_eq, List.append_assoc, linesOf_blanks (line.allBlank_indent hunit)]
  exact linesOf_settled hline hrest

/-- Settled lines are laid out as themselves, one by one. -/
theorem linesOf_rendered_append {front : List Line}
    (hfront : ∀ line ∈ front, Settled guards line.text.toList) (lines : List Line) :
    linesOf guards (rendered unit (front ++ lines)) =
      front.map (fun line => line.text.toList) ++ linesOf guards (rendered unit lines) := by
  induction front with
  | nil => rfl
  | cons line front ih =>
      obtain ⟨hline, hfront⟩ := List.forall_mem_cons.1 hfront
      obtain ⟨rest, hrendered, hrest⟩ := exists_rendered_cons unit line (front ++ lines)
      have hend : rest = [] ∨ rest.head? = some '\n' := by
        rcases hrest with ⟨hnil, -⟩ | rfl
        · exact Or.inl hnil
        · exact Or.inr rfl
      have hbreak : linesOf guards rest = linesOf guards (rendered unit (front ++ lines)) := by
        rcases hrest with ⟨rfl, hnil⟩ | rfl
        · rw [hnil]
          rfl
        · exact linesOf_break _
      rw [List.cons_append, hrendered, linesOf_render_append hunit hline hend, hbreak, ih hfront,
        List.map_cons, List.cons_append]

/-- Lines that are settled, up to a tag without end, are laid out as themselves. -/
theorem linesOf_rendered {lines : List Line} {front last : List (List Char)}
    (hlines : lines.map (fun line => line.text.toList) = front ++ last)
    (hfront : ∀ line ∈ front, Settled guards line)
    (hlast : last = [] ∨ ∃ line, last = [line] ∧ Unended guards line) :
    linesOf guards (rendered unit lines) = lines.map fun line => line.text.toList := by
  obtain ⟨settled, rest, rfl, rfl, hrest⟩ := List.map_eq_append_iff.1 hlines
  have hsettled : ∀ line ∈ settled, Settled guards line.text.toList := by
    intro line hline
    exact hfront _ (List.mem_map_of_mem hline)
  rw [linesOf_rendered_append hunit hsettled, List.map_append, List.append_cancel_left_eq]
  rcases hlast with rfl | ⟨line, rfl, hline⟩
  · rw [List.map_eq_nil_iff.1 hrest]
    exact linesOf_nil
  · obtain ⟨line, rfl, rfl⟩ := List.map_eq_singleton_iff.1 hrest
    rw [rendered_singleton, Line.render_eq, linesOf_blanks (line.allBlank_indent hunit),
      linesOf_unended hline, List.map_singleton]

end Rendered

/-! ## Laid out documents -/

theorem map_text_linesFrom (flat : Bool) (depth : Nat) (lines : List (List Char)) :
    (linesFrom flat depth lines).map (fun line => line.text.toList) = lines := by
  induction lines generalizing depth with
  | nil => rfl
  | cons line lines ih => rw [linesFrom, List.map_cons, ih, String.toList_ofList]

theorem toList_render_reflow (options : ReflowOptions) (raw : String) :
    (reflow options raw).render.toList =
      rendered options.indentUnit.toList (reflow options raw).lines := toList_render _

theorem lines_reflow (options : ReflowOptions) (raw : String) :
    (reflow options raw).lines = linesFrom options.flatDeclarations 0
      (linesOf (uniform options.guardLiterals) (dropMark raw.toList)) := by
  rw [reflow, fragments_eq_linesOf]

theorem finalDepth_reflow (options : ReflowOptions) (raw : String) :
    (reflow options raw).finalDepth =
      depthThrough options.flatDeclarations 0
        ((reflow options raw).lines.map fun line => line.text.toList) := by
  rw [reflow, map_text_linesFrom]

/-- The texts of a document's lines are the lines of the raw text. -/
theorem map_text_reflow (options : ReflowOptions) (raw : String) :
    (reflow options raw).lines.map (fun line => line.text.toList) =
      linesOf (uniform options.guardLiterals) (dropMark raw.toList) := by
  rw [reflow, map_text_linesFrom, fragments_eq_linesOf]

theorem mem_linesOf_of_mem_reflow {options : ReflowOptions} {raw : String} {line : Line}
    (h : line ∈ (reflow options raw).lines) :
    line.text.toList ∈ linesOf (uniform options.guardLiterals) (dropMark raw.toList) := by
  rw [← map_text_reflow]
  exact List.mem_map_of_mem h

/-- Documents are the same if their lines have the same texts. -/
theorem reflow_eq_iff (options : ReflowOptions) (raw raw' : String) :
    reflow options raw = reflow options raw' ↔
      linesOf (uniform options.guardLiterals) (dropMark raw.toList) =
        linesOf (uniform options.guardLiterals) (dropMark raw'.toList) := by
  constructor
  · intro h
    rw [← map_text_reflow, ← map_text_reflow, h]
  · intro h
    rw [reflow, reflow, fragments_eq_linesOf, fragments_eq_linesOf, h]

end Markup

end PrettyMarkup
