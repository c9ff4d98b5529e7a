import PrettyMarkup.Proofs.Decoding
import PrettyMarkup.Proofs.Rewriting

/-!
# Rendered documents are read back

Three things make a rendered document readable line by line: no line of a document holds a line
feed or has blanks at its ends (`Bare`), no unit that settings are built with holds a line break,
and rendering puts line feeds between lines only.  So the line feeds of a rendered text are the
ends of its lines, and the blanks in front of a line are its indent.
-/

namespace PrettyMarkup

namespace Markup

open Text

/-! ## Bare lines -/

/-- A line as it stands in a document. -/
structure Bare (line : List Char) : Prop where
  ne_nil : line ≠ []
  trim_eq : trim line = line
  not_mem : '\n' ∉ line

/-- Behind blanks a bare line starts with its first character that is kept. -/
theorem Bare.takeWhile_append {line : List Char} (h : Bare line) {blanks : List Char}
    (hblanks : AllBlank blanks) : (blanks ++ line).takeWhile isBlank = blanks := by
  apply (takeWhile_dropWhile_append hblanks _).1
  intro c hc
  exact isBlank_of_head?_trimStart line (by rw [trimStart_eq_self h.trim_eq]; exact hc)

section

variable {guards : Region → Bool} {line : List Char}

/-- Every piece is laid out as a bare line, or not at all. -/
theorem IsPiece.bare_of_mem_layOut {isLast : Prop} {piece : List Char} (h : IsPiece isLast piece)
    (hline : line ∈ layOut piece) : Bare line := by
  cases h with
  | lineFeed => simp at hline
  | data hne hlt hbreak =>
      rw [layOut_data (meetsTag_eq_false hlt)] at hline
      split at hline
      · simp at hline
      · rename_i hempty
        obtain rfl := List.mem_singleton.1 hline
        exact ⟨by simpa using hempty, trim_trim _, fun hmem => hbreak (mem_of_mem_trim hmem)⟩
  | tag hstart hstop =>
      obtain ⟨rest, rfl⟩ := List.head?_eq_some_iff.1 hstart
      rw [layOut_tag rfl] at hline
      obtain rfl := List.mem_singleton.1 hline
      refine ⟨?_, ?_, ?_⟩
      · rw [onOneLine_cons (by decide)]
        simp
      · rw [onOneLine_cons (by decide), trim, trimStart_cons (by decide),
          ← onOneLine_cons (by decide), onOneLine, trimEnd_trimEnd]
      · intro hmem
        have hbreak := isLineBreak_of_mem_onOneLine hmem
        simp [isLineBreak] at hbreak

theorem bare_of_mem_linesOf {source : List Char} (h : line ∈ linesOf guards source) :
    Bare line := by
  obtain ⟨piece, hpiece, hline⟩ := List.mem_flatMap.1 h
  obtain ⟨front, after, hpieces⟩ := List.append_of_mem hpiece
  have hsuffix : piece :: after <:+ pieces guards source := by
    rw [hpieces]
    exact List.suffix_append _ _
  exact (isPiece_of_suffix_pieces source hsuffix).bare_of_mem_layOut hline

end

theorem bare_of_mem_reflow {options : ReflowOptions} {raw : String} {line : Line}
    (h : line ∈ (reflow options raw).lines) : Bare line.text.toList :=
  bare_of_mem_linesOf (mem_linesOf_of_mem_reflow h)

/-! ## Reading a rendered document -/

/-- The line that a line of a rendered text is read as: what stands behind its blanks, as deep as
they are long. -/
def Line.read (unit written : List Char) : Line :=
  ⟨String.ofList (trimStart written), byteSize (written.takeWhile isBlank) / byteSize unit⟩

theorem byteSize_replicate_flatten (n : Nat) (unit : List Char) :
    byteSize (List.replicate n unit).flatten = n * byteSize unit := by
  induction n with
  | zero => simp
  | succ n ih =>
      rw [List.replicate_succ, List.flatten_cons, byteSize_append, ih, Nat.succ_mul, Nat.add_comm]

section

variable {unit : List Char} {lines : List Line}

/-- The line feeds of a rendered document stand between its lines only. -/
theorem splitOn_rendered (hunit : '\n' ∉ unit) (hlines : ∀ line ∈ lines, Bare line.text.toList)
    (hne : lines ≠ []) : (rendered unit lines).splitOn '\n' = lines.map (Line.render unit) := by
  refine List.splitOn_intercalate '\n' ?_ (by simpa using hne)
  intro written hwritten hmem
  obtain ⟨line, hline, rfl⟩ := List.mem_map.1 hwritten
  rw [Line.render, List.mem_append, List.mem_flatten] at hmem
  rcases hmem with ⟨part, hpart, hmem⟩ | hmem
  · rw [List.eq_of_mem_replicate hpart] at hmem
    exact hunit hmem
  · exact (hlines line hline).not_mem hmem

/-- A document with lines does not render as the empty text. -/
theorem rendered_eq_nil_iff (hlines : ∀ line ∈ lines, Bare line.text.toList) :
    rendered unit lines = [] ↔ lines = [] := by
  constructor
  · intro hnil
    cases lines with
    | nil => rfl
    | cons line lines =>
        obtain ⟨rest, hrendered, -⟩ := exists_rendered_cons unit line lines
        rw [hrendered, Line.render_eq] at hnil
        simp only [List.append_eq_nil_iff] at hnil
        exact absurd hnil.1.2 (hlines line (by simp)).ne_nil
  · rintro rfl
    rfl

variable (hne : unit ≠ []) (hunit : AllBlank unit)

include hne hunit

/-- A line is read as it was rendered. -/
theorem Line.read_render {line : Line} (h : Bare line.text.toList) :
    Line.read unit (line.render unit) = line := by
  have hindent := line.allBlank_indent hunit
  have hsize : 0 < byteSize unit := Nat.pos_of_ne_zero (mt byteSize_eq_zero_iff.1 hne)
  have hdepth : byteSize (line.indent unit) / byteSize unit = line.depth := by
    rw [Line.indent, byteSize_replicate_flatten, Nat.mul_div_cancel _ hsize]
  rw [Line.read, Line.render_eq, h.takeWhile_append hindent, trimStart_append_of_allBlank hindent,
    trimStart_eq_self h.trim_eq, String.ofList_toList, hdepth]

theorem map_read_render (hlines : ∀ line ∈ lines, Bare line.text.toList) :
    (lines.map (Line.render unit)).map (Line.read unit) = lines := by
  rw [List.map_map]
  refine (List.map_congr_left ?_).trans (List.map_id lines)
  intro line hline
  exact Line.read_render hne hunit (hlines line hline)

/-- Lines that are rendered alike are the same. -/
theorem eq_of_rendered_eq (hbreak : '\n' ∉ unit) {others : List Line}
    (hlines : ∀ line ∈ lines, Bare line.text.toList)
    (hothers : ∀ line ∈ others, Bare line.text.toList)
    (h : rendered unit others = rendered unit lines) : others = lines := by
  cases lines with
  | nil => exact (rendered_eq_nil_iff hothers).1 h
  | cons line lines =>
      have hsome : others ≠ [] := by
        intro hnil
        rw [hnil] at h
        simpa using (rendered_eq_nil_iff hlines).1 h.symm
      rw [← map_read_render hne hunit hothers, ← splitOn_rendered hbreak hothers hsome, h,
        splitOn_rendered hbreak hlines (by simp), map_read_render hne hunit hlines]

end

end Markup

/-! ## Settings -/

namespace Settings

open Text

/-- Only a unit without line breaks passes the check. -/
theorem of_checkIndent_eq_ok {settings checked : Settings}
    (h : checkIndent settings = .ok checked) :
    checked = settings ∧ ∀ c ∈ settings.reflow.indentUnit.toList, isLineBreak c = false := by
  rw [checkIndent] at h
  split at h
  · simp at h
  · rename_i hnone
    refine ⟨(Except.ok.inj h).symm, fun c hc => Bool.eq_false_iff.2 fun hbreak => hnone ?_⟩
    exact List.any_eq_true.2 ⟨c, hc, hbreak⟩

theorem bind_eq_ok {α β : Type} {x : Except Error α} {f : α → Except Error β} {b : β} :
    (x >>= f) = .ok b ↔ ∃ a, x = .ok a ∧ f a = .ok b := by
  cases x <;> simp [bind, Except.bind]

/-- Wherever settings come from, their unit has no line break. -/
theorem Loader.isLineBreak_of_build {folder : Folder} {loader : Loader} {settings : Settings}
    (h : loader.build folder = .ok settings) :
    ∀ c ∈ settings.reflow.indentUnit.toList, isLineBreak c = false := by
  rw [Loader.build] at h
  obtain ⟨value, -, h⟩ := bind_eq_ok.1 h
  obtain ⟨decoded, -, h⟩ := bind_eq_ok.1 h
  obtain ⟨rfl, hunit⟩ := of_checkIndent_eq_ok h
  exact hunit

end Settings

namespace Markup

open Text

/-- Under settings that were built, a rendered document is read back: its line feeds are the ends
of its lines, and if the unit is made of blanks each line shows its depth.  So documents with one
unit are rendered alike only if they have the same lines. -/
theorem splitOn_render_reflow {folder : Folder} {loader : Settings.Loader} {settings : Settings}
    (h : loader.build folder = .ok settings) (raw : String) :
    let document := reflow settings.reflow raw
    let unit := settings.reflow.indentUnit.toList
    (document.lines ≠ [] →
        document.render.toList.splitOn '\n' = document.lines.map (Line.render unit)) ∧
      (unit ≠ [] → AllBlank unit →
        (document.lines ≠ [] →
            (document.render.toList.splitOn '\n').map (Line.read unit) = document.lines) ∧
          ∀ (options : ReflowOptions) (other : String),
            options.indentUnit = settings.reflow.indentUnit →
              (reflow options other).render = document.render →
                (reflow options other).lines = document.lines) := by
  intro document unit
  have hbreak : '\n' ∉ unit := by
    intro hmem
    simpa [isLineBreak] using Settings.Loader.isLineBreak_of_build h '\n' hmem
  have hlines : ∀ line ∈ document.lines, Bare line.text.toList := fun line => bare_of_mem_reflow
  have hsplit : document.lines ≠ [] →
      document.render.toList.splitOn '\n' = document.lines.map (Line.render unit) := by
    intro hne
    rw [toList_render_reflow]
    exact splitOn_rendered hbreak hlines hne
  refine ⟨hsplit, fun hunit hblank => ⟨fun hne => ?_, fun options other hoptions hrender => ?_⟩⟩
  · rw [hsplit hne, map_read_render hunit hblank hlines]
  · have hrendered := congrArg String.toList hrender
    rw [toList_render_reflow, toList_render_reflow, hoptions] at hrendered
    exact eq_of_rendered_eq hunit hblank hbreak hlines (fun line => bare_of_mem_reflow) hrendered

/-- With a tab for the unit, set over the standard settings, a folded tag and its neighbours are
read back with their depths. -/
theorem splitOn_render_reflow_tab :
    ∃ (folder : Folder) (loader : Settings.Loader) (settings : Settings),
      loader.build folder = .ok settings ∧ settings.reflow.indentUnit = "\t" ∧
        (reflow settings.reflow "<a>x\n<b\n c/></a>").render.toList.splitOn '\n' =
          ["<a>", "\tx", "\t<b c/>", "</a>"].map String.toList ∧
        (["<a>", "\tx", "\t<b c/>", "</a>"].map String.toList).map (Line.read "\t".toList) =
          [⟨"<a>", 0⟩, ⟨"x", 1⟩, ⟨"<b c/>", 1⟩, ⟨"</a>", 0⟩] ∧
        (reflow settings.reflow "\n<a>x<b c/></a>").lines =
          (reflow settings.reflow "<a>x\n<b\n c/></a>").lines := by
  let settings : Settings := { Settings.standard with reflow := ⟨"\t", false, false⟩ }
  let folder : Folder := ⟨fun _ => .missing, []⟩
  let loader : Settings.Loader :=
    ⟨[], [(⟨"reflow", [.key "indent_unit"]⟩, .scalar none (.text "\t"))]⟩
  have hmerged : loader.merged folder = .ok (Settings.toValue settings) := rfl
  have hbuild : loader.build folder = .ok settings :=
    (Settings.Loader.build_of_merged hmerged).trans (if_neg (by decide))
  have hlines : (reflow settings.reflow "<a>x\n<b\n c/></a>").lines =
      [⟨"<a>", 0⟩, ⟨"x", 1⟩, ⟨"<b c/>", 1⟩, ⟨"</a>", 0⟩] := by decide +kernel
  have hne : (reflow settings.reflow "<a>x\n<b\n c/></a>").lines ≠ [] := by simp [hlines]
  obtain ⟨hsplit, hread⟩ := splitOn_render_reflow hbuild "<a>x\n<b\n c/></a>"
  obtain ⟨hback, hsame⟩ := hread (by decide) (by decide)
  have hpieces : (reflow settings.reflow "<a>x\n<b\n c/></a>").render.toList.splitOn '\n' =
      ["<a>", "\tx", "\t<b c/>", "</a>"].map String.toList := by
    rw [hsplit hne, hlines]
    decide
  have hback := hback hne
  rw [hpieces, hlines] at hback
  exact ⟨folder, loader, settings, hbuild, rfl, hpieces, hback,
    hsame settings.reflow "\n<a>x<b c/></a>" rfl (by decide +kernel)⟩

end Markup

end PrettyMarkup
