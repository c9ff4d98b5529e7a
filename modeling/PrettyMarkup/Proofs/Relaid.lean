import PrettyMarkup.Proofs.FixedPoints

/-!
# Layout that is there already does not count

Blanks around a line feed show in no line of a document: in character data they are trimmed off the
ends of lines, and in a tag they are folded with the line feed to one space.  So texts that differ
in nothing but the blanks around their line feeds (`Text.Relaid`) are laid out alike.

## Implementation notes

The lines are compared along the pieces of the text in front of a line feed.  A tag that ends there
ends there whatever follows; a tag that is still open goes on over the blanks, and of these the
automaton remembers nothing.
-/

namespace PrettyMarkup

namespace Text

/-- The texts differ in which blanks stand around their line feeds, and in nothing else: in the
indents of lines, in the blanks at their ends, in blank lines and in carriage returns. -/
inductive Relaid : List Char → List Char → Prop
  | nil : Relaid [] []
  | char (c : Char) {s t : List Char} (h : Relaid s t) : Relaid (c :: s) (c :: t)
  | lineFeed {before after before' after' s t : List Char} (hbefore : AllBlank before)
      (hafter : AllBlank after) (hbefore' : AllBlank before') (hafter' : AllBlank after')
      (h : Relaid s t) :
      Relaid (before ++ '\n' :: (after ++ s)) (before' ++ '\n' :: (after' ++ t))

namespace Relaid

theorem refl (text : List Char) : Relaid text text := by
  induction text with
  | nil => exact .nil
  | cons c text ih => exact .char c ih

theorem append_left (front : List Char) {s t : List Char} (h : Relaid s t) :
    Relaid (front ++ s) (front ++ t) := by
  induction front with
  | nil => exact h
  | cons c front ih => exact .char c ih

end Relaid

end Text

namespace Markup

open Text

section

variable {before after : List Char} (hbefore : AllBlank before) (hafter : AllBlank after)

include hbefore hafter

theorem allBlank_lineFeed : AllBlank (before ++ '\n' :: after) :=
  allBlank_append.2 ⟨hbefore, allBlank_cons.2 ⟨by decide, hafter⟩⟩

/-- On one line the blanks around a line feed are one space. -/
theorem onOneLine_lineFeed (front rest : List Char) :
    onOneLine (front ++ (before ++ '\n' :: (after ++ rest))) =
      onOneLine (front ++ '\n' :: rest) := by
  have hbreak : (before ++ '\n' :: after).any isLineBreak = true := by
    simp [isLineBreak]
  have hlong := foldRuns_append_run (allBlank_lineFeed hbefore hafter) hbreak front rest
  have hshort := @foldRuns_append_run ['\n'] (by decide) (by decide) front rest
  rw [List.append_assoc, List.cons_append] at hlong
  rw [List.singleton_append] at hshort
  rw [onOneLine, onOneLine, hlong, hshort]

omit hafter in
theorem isBlank_of_mem_head?_lineFeed (rest : List Char) :
    ∀ c ∈ (before ++ '\n' :: rest).head?, isBlank c = true := by
  intro c hc
  cases before with
  | nil =>
      rw [List.nil_append, List.head?_cons, Option.mem_some] at hc
      rw [← hc]
      decide
  | cons d before =>
      rw [List.cons_append, List.head?_cons, Option.mem_some] at hc
      rw [← hc]
      exact (allBlank_cons.1 hbefore).1

variable (guards : Region → Bool)

/-- A line of character data ends in front of a line feed, whatever blanks are around it. -/
theorem linesOf_data_lineFeed {data : List Char} (hne : data ≠ [])
    (hdata : ∀ c ∈ data, isData c = true) (rest : List Char) :
    linesOf guards (data ++ (before ++ '\n' :: (after ++ rest))) =
      layOut data ++ linesOf guards rest := by
  -- The blanks before the line feed may hold line feeds of their own.
  have hcut := List.takeWhile_append_dropWhile (p := isData) (l := before)
  have hblanks := allBlank_append.1 (hcut.symm ▸ hbefore)
  have hline : ∀ c ∈ data ++ before.takeWhile isData, isData c = true := by
    intro c hc
    rcases List.mem_append.1 hc with hc | hc
    · exact hdata c hc
    · exact List.mem_takeWhile_imp hc
  have hstop : ∀ c ∈ (before.dropWhile isData ++ '\n' :: (after ++ rest)).head?,
      isData c = false := by
    intro c hc
    cases hdrop : before.dropWhile isData with
    | nil =>
        rw [hdrop, List.nil_append, List.head?_cons, Option.mem_some] at hc
        rw [← hc]
        decide
    | cons d tail =>
        rw [hdrop, List.cons_append] at hc
        exact eq_false_of_mem_head?_dropWhile isData before (by rw [hdrop]; exact hc)
  have hbehind : linesOf guards (before.dropWhile isData ++ '\n' :: (after ++ rest)) =
      linesOf guards rest := by
    rw [linesOf_blanks hblanks.2, linesOf_break, linesOf_blanks hafter]
  have hsame : layOut (data ++ before.takeWhile isData) = layOut data := by
    rw [layOut_data (meetsTag_of_isData hline), layOut_data (meetsTag_of_isData hdata),
      trim_append_blanks hblanks.1]
  calc
    linesOf guards (data ++ (before ++ '\n' :: (after ++ rest)))
      = linesOf guards ((data ++ before.takeWhile isData) ++
          (before.dropWhile isData ++ '\n' :: (after ++ rest))) := by
        rw [List.append_assoc, ← List.append_assoc (before.takeWhile isData), hcut]
    _ = layOut (data ++ before.takeWhile isData) ++
          linesOf guards (before.dropWhile isData ++ '\n' :: (after ++ rest)) :=
        linesOf_data (by simp [hne]) hline hstop
    _ = layOut data ++ linesOf guards rest := by rw [hsame, hbehind]

/-- A tag goes on over a line feed, whatever blanks are around it. -/
theorem linesOf_open_lineFeed {front : List Char} (hfront : meetsTag front = true)
    (hopen : cutTag? guards front = none) (rest : List Char) :
    linesOf guards (front ++ (before ++ '\n' :: (after ++ rest))) =
      linesOf guards (front ++ '\n' :: rest) := by
  obtain ⟨scan, hscan⟩ := exists_cutTag?_append_run hfront hopen
  have hlong := hscan (before ++ '\n' :: after) (by simp) (allBlank_lineFeed hbefore hafter) rest
  have hshort := hscan ['\n'] (by simp) (by decide) rest
  have hmeets := meetsTag_append_of_meetsTag hfront
  simp only [List.append_assoc, List.cons_append, List.nil_append] at hlong hshort
  cases hcut : Scan.cut? guards scan rest with
  | none =>
      rw [hcut, Option.map_none] at hlong hshort
      rw [linesOf_open (hmeets _) hlong, linesOf_open (hmeets _) hshort,
        onOneLine_lineFeed hbefore hafter]
  | some cut =>
      rw [hcut, Option.map_some] at hlong hshort
      rw [linesOf_tag (hmeets _) hlong, linesOf_tag (hmeets _) hshort,
        onOneLine_lineFeed hbefore hafter]

/-- The blanks around a line feed show in no line. -/
theorem linesOf_lineFeed (front rest : List Char) :
    linesOf guards (front ++ (before ++ '\n' :: (after ++ rest))) =
      linesOf guards (front ++ '\n' :: rest) := by
  induction front using pieces_induction guards with
  | nil =>
      rw [List.nil_append, List.nil_append, linesOf_blanks hbefore, linesOf_break,
        linesOf_blanks hafter, linesOf_break]
  | tag front tag behind hfront hcut ih =>
      have hmeets := meetsTag_append_of_meetsTag hfront
      have hwhole := cutTag?_append hfront hcut
      rw [linesOf_tag (hmeets _) (hwhole _), ih]
      exact (linesOf_tag (hmeets _) (hwhole _)).symm
  | unended front hfront hcut => exact linesOf_open_lineFeed hbefore hafter guards hfront hcut rest
  | line_feed front ih =>
      rw [List.cons_append, List.cons_append, linesOf_break, linesOf_break, ih]
  | data data front hne hdata hstop ih =>
      cases front with
      | nil =>
          rw [List.append_nil, linesOf_data_lineFeed hbefore hafter guards hne hdata]
          exact (linesOf_data_lineFeed allBlank_nil allBlank_nil guards hne hdata rest).symm
      | cons c front =>
          have hstop' (behind : List Char) : ∀ d ∈ (c :: front ++ behind).head?, isData d = false :=
            hstop
          rw [List.append_assoc, List.append_assoc, linesOf_data hne hdata (hstop' _),
            linesOf_data hne hdata (hstop' _), ih]

end

/-! ## Whole texts -/

theorem linesOf_relaid {a b : List Char} (h : Relaid a b) (guards : Region → Bool)
    (front : List Char) : linesOf guards (front ++ a) = linesOf guards (front ++ b) := by
  induction h generalizing front with
  | nil => rfl
  | char c h ih =>
      have := ih (front ++ [c])
      rwa [List.append_assoc, List.append_assoc] at this
  | @lineFeed before after before' after' s t hbefore hafter hbefore' hafter' h ih =>
      calc
        linesOf guards (front ++ (before ++ '\n' :: (after ++ s)))
          = linesOf guards (front ++ '\n' :: s) := linesOf_lineFeed hbefore hafter guards front s
        _ = linesOf guards (front ++ '\n' :: t) := by
            have := ih (front ++ ['\n'])
            rwa [List.append_assoc, List.append_assoc] at this
        _ = linesOf guards (front ++ (before' ++ '\n' :: (after' ++ t))) :=
            (linesOf_lineFeed hbefore' hafter' guards front t).symm

theorem dropMark_lineFeed {before : List Char} (hbefore : AllBlank before) (rest : List Char) :
    dropMark (before ++ '\n' :: rest) = before ++ '\n' :: rest := by
  apply dropMark_of_head?
  intro hmark
  have := isBlank_of_mem_head?_lineFeed hbefore rest _ hmark
  exact absurd this (by decide)

/-- A mark in front of a text is not layout. -/
theorem dropMark_relaid {a b : List Char} (h : Relaid a b) : Relaid (dropMark a) (dropMark b) := by
  cases h with
  | nil => exact .nil
  | @char c s t h =>
      by_cases hc : c = '\uFEFF'
      · rw [hc]
        exact h
      · rw [dropMark_of_head? (by simpa using hc), dropMark_of_head? (by simpa using hc)]
        exact .char c h
  | lineFeed hbefore hafter hbefore' hafter' h =>
      rw [dropMark_lineFeed hbefore, dropMark_lineFeed hbefore']
      exact .lineFeed hbefore hafter hbefore' hafter' h

/-- The blanks around one line feed of a text. -/
theorem relaid_lineFeed {before after : List Char} (hbefore : AllBlank before)
    (hafter : AllBlank after) (front rest : List Char) :
    Relaid (front ++ before ++ ['\n'] ++ after ++ rest) (front ++ ['\n'] ++ rest) := by
  simp only [List.append_assoc, List.singleton_append]
  exact .append_left front
    (@Relaid.lineFeed before after [] [] rest rest hbefore hafter allBlank_nil allBlank_nil
      (.refl rest))

/-- Blanks around a line feed do not count, and so no layout does that a raw text has already:
texts that differ in nothing but the blanks around their line feeds are the same document. -/
theorem reflow_relaid (options : ReflowOptions) :
    (∀ u before after v : String, AllBlank before.toList → AllBlank after.toList →
      reflow options (u ++ before ++ "\n" ++ after ++ v) = reflow options (u ++ "\n" ++ v)) ∧
    ∀ raw raw' : String, Relaid raw.toList raw'.toList →
      reflow options raw = reflow options raw' := by
  have hrelaid : ∀ raw raw' : String, Relaid raw.toList raw'.toList →
      reflow options raw = reflow options raw' := by
    intro raw raw' h
    rw [reflow_eq_iff]
    exact linesOf_relaid (dropMark_relaid h) _ []
  constructor
  · intro u before after v hbefore hafter
    apply hrelaid
    simp only [String.toList_append]
    exact relaid_lineFeed hbefore hafter u.toList v.toList
  · exact hrelaid

/-- Blanks between `=` and a quote, and the carriage returns and the indent of a document. -/
theorem reflow_relaid_carriageReturn :
    (AllBlank "\r".toList ∧ AllBlank "\t\u3000".toList ∧
      reflow ⟨"\t", true, true⟩ ("<a x=" ++ "\r" ++ "\n" ++ "\t\u3000" ++ "\"><\"/>") =
        reflow ⟨"\t", true, true⟩ ("<a x=" ++ "\n" ++ "\"><\"/>")) ∧
    Relaid "<a>\r\n  x\r\n</a>".toList "<a>\nx\n</a>".toList ∧
      (reflow .standard "<a>\r\n  x\r\n</a>").lines = [⟨"<a>", 0⟩, ⟨"x", 1⟩, ⟨"</a>", 0⟩] := by
  have hreturn : AllBlank ['\r'] := by decide
  have hlast : Relaid ("x".toList ++ (['\r'] ++ '\n' :: ([] ++ "</a>".toList)))
      ("x".toList ++ ([] ++ '\n' :: ([] ++ "</a>".toList))) :=
    .append_left _ (.lineFeed hreturn allBlank_nil allBlank_nil allBlank_nil (.refl _))
  have hrelaid : Relaid "<a>\r\n  x\r\n</a>".toList "<a>\nx\n</a>".toList :=
    .append_left "<a>".toList
      (@Relaid.lineFeed _ "  ".toList _ _ _ _ hreturn (by decide) allBlank_nil allBlank_nil hlast)
  refine ⟨⟨by decide, by decide, ?_⟩, hrelaid, ?_⟩
  · exact (reflow_relaid ⟨"\t", true, true⟩).1 _ _ _ _ (by decide) (by decide)
  · rw [(reflow_relaid .standard).2 _ _ hrelaid]
    decide

end Markup

end PrettyMarkup
