import PrettyMarkup.Proofs.Depths
import PrettyMarkup.Proofs.FixedPoints

/-!
# Texts laid out in parts

A text may be laid out in parts where its reader rests: between two fragments, with nothing but
blanks read of the next one.  The lines of the whole are then those of the front and, behind them,
those of the rest, and nowhere else are they (`linesOf_append_iff`).  The lines of the front keep
their depths.  Those of the rest start from the depth that the front ends at; a closing tag that
closes nothing when the rest stands by itself closes a scope of the front, so they may be deeper by
less than that depth, but they are never less deep than by themselves.
-/

namespace PrettyMarkup

namespace Markup

open Text

/-! ## The reader at rest -/

/-- The reader stands between two fragments, and holds nothing but blanks. -/
structure Reading.Rests (reading : Reading) : Prop where
  region_eq : reading.region = .text
  allBlank_held : AllBlank reading.held

namespace Reading

theorem rests_idle (finished : List (List Char)) : (idle finished).Rests := ⟨rfl, allBlank_nil⟩

/-- Over a line of character data, and what finishes it, the reader comes to stand between two
fragments. -/
theorem run_data_cons {data : List Char} (hdata : ∀ c ∈ data, isData c = true) {c : Char}
    (hc : isData c = false) (guard : Bool) (rest : List Char) (finished : List (List Char)) :
    run guard (idle finished) (data ++ c :: rest) =
      run guard (idle ((layOut data).reverse ++ finished)) (c :: rest) := by
  rw [idle, run_data hdata, run_finish rfl guard hc, finish_data hdata]

theorem run_data_end {data : List Char} (hdata : ∀ c ∈ data, isData c = true) (guard : Bool)
    (finished : List (List Char)) :
    run guard (idle finished) data = ⟨.text, data.reverse ++ [], false, finished⟩ := by
  have hrun := run_data hdata guard [] [] finished
  rwa [List.append_nil] at hrun

end Reading

open Reading

section

variable {guard : Bool} {source : List Char} {finished : List (List Char)}

theorem linesOf_data_end {data : List Char} (hne : data ≠ [])
    (hdata : ∀ c ∈ data, isData c = true) : linesOf (uniform guard) data = layOut data := by
  have hlines := @linesOf_data (uniform guard) data [] hne hdata (by simp)
  rwa [List.append_nil, linesOf_nil, List.append_nil] at hlines

/-- Where the reader rests, the lines of what follows are laid out by themselves. -/
theorem linesOf_append (h : (run guard (idle finished) source).Rests) (rest : List Char) :
    linesOf (uniform guard) (source ++ rest) =
      linesOf (uniform guard) source ++ linesOf (uniform guard) rest := by
  induction source using pieces_induction (uniform guard) generalizing finished with
  | nil => rw [linesOf_nil, List.nil_append, List.nil_append]
  | tag source tag after hsource hcut ih =>
      have hlong := meetsTag_append_of_meetsTag hsource rest
      rw [run_tag hsource hcut] at h
      rw [linesOf_tag hlong (cutTag?_append hsource hcut rest), ih h, linesOf_tag hsource hcut,
        List.cons_append]
  | unended source hsource hcut =>
      exact absurd h.region_eq (run_open hsource hcut finished).1
  | line_feed source ih =>
      rw [List.cons_append, linesOf_break, linesOf_break]
      exact ih h
  | data data source hne hdata hsource ih =>
      cases source with
      | nil =>
          rw [List.append_nil] at h ⊢
          rw [run_data_end hdata] at h
          have hblank : AllBlank data := by simpa using h.allBlank_held.reverse
          have hnone := @linesOf_blanks (uniform guard) data hblank []
          rw [List.append_nil, linesOf_nil] at hnone
          rw [linesOf_blanks hblank, hnone, List.nil_append]
      | cons c source =>
          rw [run_data_cons hdata (hsource c rfl)] at h
          have hlong : ∀ d ∈ (c :: source ++ rest).head?, isData d = false := hsource
          rw [List.append_assoc, linesOf_data hne hdata hlong, ih h,
            linesOf_data hne hdata hsource, List.append_assoc]

/-- Where the reader does not rest, a letter that follows is no line of its own. -/
theorem rests_of_linesOf_concat
    (h : linesOf (uniform guard) (source ++ ['x']) = linesOf (uniform guard) source ++ [['x']]) :
    (run guard (idle finished) source).Rests := by
  induction source using pieces_induction (uniform guard) generalizing finished with
  | nil => exact rests_idle finished
  | tag source tag after hsource hcut ih =>
      have hlong := meetsTag_append_of_meetsTag hsource ['x']
      rw [linesOf_tag hlong (cutTag?_append hsource hcut ['x']), linesOf_tag hsource hcut,
        List.cons_append, List.cons.injEq] at h
      rw [run_tag hsource hcut]
      exact ih h.2
  | unended source hsource hcut =>
      have hlong := meetsTag_append_of_meetsTag hsource ['x']
      have hopen : cutTag? (uniform guard) (source ++ ['x']) = none :=
        cutTag?_concat_of_none (by decide) (by decide) hsource hcut
      rw [linesOf_open hlong hopen, linesOf_open hsource hcut] at h
      simp at h
  | line_feed source ih =>
      rw [List.cons_append, linesOf_break, linesOf_break] at h
      exact ih h
  | data data source hne hdata hsource ih =>
      cases source with
      | nil =>
          rw [List.append_nil] at h ⊢
          have hlong : ∀ c ∈ data ++ ['x'], isData c = true :=
            List.forall_mem_append.2 ⟨hdata, by simp [isData]⟩
          rw [linesOf_data_end (by simp) hlong, linesOf_data_end hne hdata,
            layOut_data (meetsTag_of_isData hlong), layOut_data (meetsTag_of_isData hdata)] at h
          rw [run_data_end hdata]
          refine ⟨rfl, ?_⟩
          -- Two lines of character data would be one.
          cases hempty : (trim data).isEmpty with
          | true =>
              have hkept := eraseBlanks_trim data
              rw [List.isEmpty_iff.1 hempty, eraseBlanks_nil] at hkept
              simpa using (eraseBlanks_eq_nil_iff.1 hkept.symm).reverse
          | false =>
              have hlength := congrArg List.length h
              rw [hempty] at hlength
              split at hlength <;> simp at hlength
      | cons c source =>
          have hlong : ∀ d ∈ (c :: source ++ ['x']).head?, isData d = false := hsource
          rw [List.append_assoc, linesOf_data hne hdata hlong, linesOf_data hne hdata hsource,
            List.append_assoc, List.append_cancel_left_eq] at h
          rw [run_data_cons hdata (hsource c rfl)]
          exact ih h

/-- A text may be laid out in parts if and only if its reader rests behind the front. -/
theorem linesOf_append_iff :
    (run guard .start source).Rests ↔ ∀ rest, linesOf (uniform guard) (source ++ rest) =
      linesOf (uniform guard) source ++ linesOf (uniform guard) rest := by
  have hstart : Reading.start = idle [] := rfl
  rw [hstart]
  constructor
  · intro h rest
    exact linesOf_append h rest
  · intro h
    apply rests_of_linesOf_concat
    have hletter : linesOf (uniform guard) ['x'] = [['x']] := linesOf_data_end (by simp) (by decide)
    rw [h, hletter]

end

/-! ## Documents laid out in parts -/

theorem dropMark_append {rest : List Char} (h : rest.head? ≠ some '\uFEFF') (front : List Char) :
    dropMark (front ++ rest) = dropMark front ++ rest := by
  cases front with
  | nil => exact dropMark_of_head? h
  | cons c front =>
      by_cases hc : c = '\uFEFF'
      · rw [hc]
        rfl
      · rw [dropMark_of_head? (by simpa using hc), dropMark_of_head? (by simpa using hc)]

/-- Where the reader rests behind a front, the whole has the lines of the front and, behind them,
those of the rest, deeper by at most the depth that the front ends at.  They are deeper by just that
depth exactly if it is zero or each closing tag of the rest closes a scope of the rest. -/
theorem reflow_append (options : ReflowOptions) (front rest : String)
    (hfront : (Reading.run options.guardLiterals .start (dropMark front.toList)).Rests)
    (hrest : rest.toList.head? ≠ some '\uFEFF') :
    let first := reflow options front
    let second := reflow options rest
    let whole := reflow options (front ++ rest)
    ∃ moved, whole.lines = first.lines ++ moved ∧
      List.Forall₂ (Line.Sinks first.finalDepth) second.lines moved ∧
      Within first.finalDepth second.finalDepth whole.finalDepth ∧
      (moved = second.lines.map (Line.deepen first.finalDepth) ∧
          whole.finalDepth = second.finalDepth + first.finalDepth ↔
        first.finalDepth = 0 ∨ ClosesOpened options.flatDeclarations 0
          (second.lines.map fun line => line.text.toList)) := by
  intro first second whole
  have hlines : linesOf (uniform options.guardLiterals) (dropMark (front ++ rest).toList) =
      linesOf (uniform options.guardLiterals) (dropMark front.toList) ++
        linesOf (uniform options.guardLiterals) (dropMark rest.toList) := by
    rw [String.toList_append, dropMark_append hrest, dropMark_of_head? hrest]
    exact linesOf_append hfront rest.toList
  have hdepth : ∀ raw, (reflow options raw).finalDepth = depthThrough options.flatDeclarations 0
      (linesOf (uniform options.guardLiterals) (dropMark raw.toList)) := by
    intro raw
    rw [finalDepth_reflow, map_text_reflow]
  have hwhole : whole.finalDepth = depthThrough options.flatDeclarations first.finalDepth
      (linesOf (uniform options.guardLiterals) (dropMark rest.toList)) := by
    rw [hdepth, hlines, depthThrough_append, hdepth]
  have hwithin : Within first.finalDepth 0 first.finalDepth := ⟨by omega, by omega⟩
  refine ⟨linesFrom options.flatDeclarations first.finalDepth
    (linesOf (uniform options.guardLiterals) (dropMark rest.toList)), ?_, ?_, ?_, ?_⟩
  · rw [lines_reflow, hlines, linesFrom_append, ← lines_reflow, ← hdepth]
  · rw [lines_reflow]
    exact hwithin.linesFrom _ _
  · rw [hwhole, hdepth rest]
    exact hwithin.depthThrough _ _
  · rw [hwhole, hdepth rest, map_text_reflow, lines_reflow]
    exact linesFrom_deepen_iff

/-- A closing tag of the rest that closes a scope of the front keeps the lines behind it from
being as far down as that scope. -/
theorem reflow_append_scopes :
    (Reading.run false .start (dropMark "\uFEFF<a>\n<b> ".toList)).Rests ∧
      "</b><c></c>".toList.head? ≠ some '\uFEFF' ∧
      ∃ moved, (reflow .standard ("\uFEFF<a>\n<b> " ++ "</b><c></c>")).lines =
          (reflow .standard "\uFEFF<a>\n<b> ").lines ++ moved ∧
        moved = [⟨"</b>", 1⟩, ⟨"<c>", 1⟩, ⟨"</c>", 1⟩] ∧
        List.Forall₂ (Line.Sinks 2) (reflow .standard "</b><c></c>").lines moved := by
  have hrests : (Reading.run false .start (dropMark "\uFEFF<a>\n<b> ".toList)).Rests :=
    ⟨by decide, by decide⟩
  have hmark : "</b><c></c>".toList.head? ≠ some '\uFEFF' := by decide
  have hfirst : (reflow .standard "\uFEFF<a>\n<b> ").lines = [⟨"<a>", 0⟩, ⟨"<b>", 1⟩] := by decide
  have hwhole : (reflow .standard ("\uFEFF<a>\n<b> " ++ "</b><c></c>")).lines =
      [⟨"<a>", 0⟩, ⟨"<b>", 1⟩] ++ [⟨"</b>", 1⟩, ⟨"<c>", 1⟩, ⟨"</c>", 1⟩] := by decide
  obtain ⟨moved, hlines, hsinks, -⟩ :=
    reflow_append .standard "\uFEFF<a>\n<b> " "</b><c></c>" hrests hmark
  refine ⟨hrests, hmark, moved, hlines, ?_, hsinks⟩
  rw [hfirst, hwhole, List.append_cancel_left_eq] at hlines
  exact hlines.symm

end Markup

end PrettyMarkup
