import PrettyMarkup.Proofs.Lines

/-!
# Split literals

Guarding literals or not makes a difference to a text exactly if some literal of it is split.
Unguarded, the line of the first split literal is a tag without end: what the splitting cut off
begins the next line, and read again the two are joined over the line feed between them.

The position is described once (`SplitLines`) and found by walking along the pieces of the
guarded text (`partsAtSplit`).
-/

namespace PrettyMarkup

namespace Markup

open Text

/-- Lines of which one is the front of a split literal: the lines before it are settled, it is a
tag without end, and the line after it starts with the `<` that ended it. -/
structure SplitLines (front : List (List Char)) (line next : List Char) : Prop where
  settled : ∀ guards, ∀ l ∈ front, Settled guards l
  unended : ∀ guards, Unended guards line
  meetsTag_next : meetsTag next = true

section

variable {guards : Region → Bool} {source front rest : List Char}

theorem exists_linesOf_cons (h : meetsTag source = true) :
    ∃ line lines, linesOf guards source = line :: lines ∧ meetsTag line = true := by
  cases hcut : cutTag? guards source with
  | none => exact ⟨_, _, linesOf_open h hcut, meetsTag_onOneLine h⟩
  | some cut =>
      obtain ⟨tag, after⟩ := cut
      exact ⟨_, _, linesOf_tag h hcut, meetsTag_onOneLine (meetsTag_of_cutTag? h hcut)⟩

/-- An unguarded tag is cut at its first `><`, and another line begins there. -/
theorem exists_linesOf_split (h : IsOpen front) (hsplit : holdsSplit front = true)
    (rest : List Char) :
    ∃ line next lines, linesOf (uniform false) (front ++ rest) = line :: next :: lines ∧
      SplitLines [] line next ∧
      (eraseBlanks line).length < (eraseBlanks front).length := by
  obtain ⟨before, after, rfl, hmeets, hnone, hopen, hcut⟩ :=
    exists_cutTag?_of_holdsSplit h.meetsTag_eq h.cutTag?_eq hsplit
  obtain ⟨next, lines, hnext, hline⟩ :=
    @exists_linesOf_cons (uniform false) ('<' :: after ++ rest) rfl
  have hsource : meetsTag (before ++ '<' :: after ++ rest) = true :=
    meetsTag_append_of_meetsTag h.meetsTag_eq rest
  have hbefore : IsOpen before := ⟨hmeets, hopen⟩
  have hpoint : SplitLines [] (onOneLine before) next := by
    refine ⟨by simp, ?_, hline⟩
    intro guards
    exact hbefore.unended (Or.inr hnone)
  refine ⟨onOneLine before, next, lines, ?_, hpoint, ?_⟩
  · rw [linesOf_tag hsource (hcut rest), hnext]
  · rw [eraseBlanks_onOneLine, eraseBlanks_append, List.length_append, eraseBlanks_cons (by decide)]
    simp

/-- A line of the unguarded text is the front of a split literal, and the guarded text has other
lines. -/
def PartsAtSplit (source : List Char) : Prop :=
  ∃ front line next lines, linesOf (uniform false) source = front ++ line :: next :: lines ∧
    SplitLines front line next ∧ linesOf (uniform true) source ≠ linesOf (uniform false) source

/-- A text starts with an open front that holds a split literal, and its guarded tag keeps more
than the front. -/
theorem partsAtSplit_of_holdsSplit (h : IsOpen front) (hsplit : holdsSplit front = true)
    {tag : List Char} {lines : List (List Char)}
    (hlines : linesOf (uniform true) (front ++ rest) = onOneLine tag :: lines)
    (hlength : (eraseBlanks front).length ≤ (eraseBlanks tag).length) :
    PartsAtSplit (front ++ rest) := by
  obtain ⟨line, next, more, hfalse, hpoint, hshort⟩ := exists_linesOf_split h hsplit rest
  refine ⟨[], line, next, more, hfalse, hpoint, ?_⟩
  rw [hlines, hfalse]
  intro heq
  have hsame : onOneLine tag = line := (List.cons.inj heq).1
  rw [← hsame, eraseBlanks_onOneLine] at hshort
  omega

/-- A text starts with a whole tag that holds a split literal. -/
theorem partsAtSplit_of_tag {tag after : List Char} (hsource : meetsTag source = true)
    (hcut : cutTag? (uniform true) source = some (tag, after)) (hsplit : holdsSplit tag = true) :
    PartsAtSplit source := by
  have hclosed := isClosed_of_cutTag? hsource hcut
  have hlines := linesOf_tag hsource hcut
  obtain ⟨hcat, front, hfront, rfl⟩ := of_cutTag?_eq_some hsource hcut
  have hopen : IsOpen front := ⟨hfront, cutTag?_front hfront hclosed.cutTag?_eq⟩
  have hcat' : front ++ '>' :: after = source := by
    rw [← hcat, List.append_assoc]
    rfl
  rw [holdsSplit_append_of_not_mem (by simp)] at hsplit
  rw [← hcat'] at hlines ⊢
  exact partsAtSplit_of_holdsSplit hopen hsplit hlines (by simp)

/-- A text is a tag without end that holds one. -/
theorem partsAtSplit_of_open (h : IsOpen source) (hsplit : holdsSplit source = true) :
    PartsAtSplit source := by
  have hlines : linesOf (uniform true) (source ++ []) = [onOneLine source] := by
    rw [List.append_nil, linesOf_open h.meetsTag_eq h.cutTag?_eq]
  rw [← List.append_nil source]
  exact partsAtSplit_of_holdsSplit h hsplit hlines le_rfl

/-- Lines that the two readings share can be put in front. -/
theorem PartsAtSplit.prepend (h : PartsAtSplit rest) (more : List (List Char))
    (hmore : ∀ guards, ∀ l ∈ more, Settled guards l)
    (hlines : ∀ guard, linesOf (uniform guard) source = more ++ linesOf (uniform guard) rest) :
    PartsAtSplit source := by
  obtain ⟨front, line, next, lines, hfalse, hpoint, hne⟩ := h
  have hfront : ∀ guards, ∀ l ∈ more ++ front, Settled guards l := by
    intro guards l hl
    rcases List.mem_append.1 hl with hl | hl
    · exact hmore guards l hl
    · exact hpoint.settled guards l hl
  refine ⟨more ++ front, line, next, lines, ?_,
    ⟨hfront, hpoint.unended, hpoint.meetsTag_next⟩, ?_⟩
  · rw [hlines, hfalse, List.append_assoc]
  · rw [hlines, hlines, Ne, List.append_cancel_left_eq]
    exact hne

/-- A split literal is the front of a line of the unguarded text, and makes its lines differ from
those of the guarded text. -/
theorem partsAtSplit (h : ¬ Unsplit (uniform false) (pieces (uniform true) source)) :
    PartsAtSplit source := by
  induction source using pieces_induction (uniform true) with
  | nil => exact absurd (Or.inr (by simp)) h
  | tag source tag after hsource hcut ih =>
      rw [pieces_tag hsource hcut] at h
      cases hsplit : holdsSplit tag with
      | true => exact partsAtSplit_of_tag hsource hcut hsplit
      | false =>
          have hclosed := isClosed_of_cutTag? hsource hcut
          have hafter : PartsAtSplit after := ih (not_unsplit_tail h fun _ => hsplit)
          apply hafter.prepend [onOneLine tag]
          · intro guards l hl
            rw [List.mem_singleton.1 hl]
            exact hclosed.settled (Or.inr hsplit)
          · intro guard
            have hwhole : cutTag? (uniform guard) (tag ++ after) = some (tag, after) :=
              hclosed.cutTag?_append (Or.inr hsplit) after
            rw [(of_cutTag?_eq_some hsource hcut).1] at hwhole
            exact linesOf_tag hsource hwhole
  | unended source hsource hcut =>
      rw [pieces_open hsource hcut] at h
      cases hsplit : holdsSplit source with
      | true => exact partsAtSplit_of_open ⟨hsource, hcut⟩ hsplit
      | false =>
          have hnil := not_unsplit_tail h fun _ => hsplit
          exact absurd (Or.inr (by simp)) hnil
  | line_feed rest ih =>
      rw [pieces_break] at h
      have hrest : PartsAtSplit rest := ih (not_unsplit_tail h (by decide))
      apply hrest.prepend []
      · simp
      · intro guard
        exact linesOf_break rest
  | data data rest hne hdata hrest ih =>
      rw [pieces_data hne hdata hrest] at h
      have hmeets : meetsTag data = false := meetsTag_of_isData hdata
      have hbehind : PartsAtSplit rest := ih (not_unsplit_tail h (by simp [hmeets]))
      apply hbehind.prepend (layOut data)
      · intro guards l hl
        exact settled_of_mem_layOut hdata hl
      · intro guard
        exact linesOf_data hne hdata hrest

/-- Guarding makes no difference exactly if no literal is split. -/
theorem linesOf_guarded_eq_iff :
    linesOf (uniform true) source = linesOf (uniform false) source ↔
      Unsplit (uniform false) (pieces (uniform true) source) := by
  constructor
  · intro heq
    by_contra h
    obtain ⟨-, -, -, -, -, -, hne⟩ := partsAtSplit h
    exact hne heq
  · intro h
    rw [linesOf, linesOf, pieces_of_unsplit h]

/-! ## Documents without split literals -/

/-- Literals are guarded, or guarding them does not change the texts of the lines. -/
def KeepsLiterals (options : ReflowOptions) (raw : String) : Prop :=
  options.guardLiterals = true ∨
    (reflow { options with guardLiterals := true } raw).lines.map Line.text =
      (reflow { options with guardLiterals := false } raw).lines.map Line.text

instance (options : ReflowOptions) (raw : String) : Decidable (KeepsLiterals options raw) :=
  inferInstanceAs (Decidable (_ ∨ _))

theorem map_text_eq_iff {lines lines' : List Line} :
    lines.map Line.text = lines'.map Line.text ↔
      lines.map (fun line => line.text.toList) = lines'.map fun line => line.text.toList := by
  have hmap : ∀ lines : List Line,
      lines.map (fun line => line.text.toList) = (lines.map Line.text).map String.toList := by
    intro lines
    rw [List.map_map]
    rfl
  rw [hmap, hmap]
  exact (List.map_inj_right fun _ _ => String.toList_inj.1).symm

theorem keepsLiterals_iff (options : ReflowOptions) (raw : String) :
    KeepsLiterals options raw ↔
      Unsplit (uniform options.guardLiterals) (pieces (uniform true) (dropMark raw.toList)) := by
  rw [KeepsLiterals, map_text_eq_iff, map_text_reflow, map_text_reflow, linesOf_guarded_eq_iff]
  cases options.guardLiterals with
  | true => simp [Unsplit]
  | false => simp

/-- The lines of a document without split literals are settled, also for other guards if literals
were not guarded. -/
theorem KeepsLiterals.exists_settled {options : ReflowOptions} {raw : String}
    (h : KeepsLiterals options raw)
    (hguards : options.guardLiterals = true → guards = uniform true) :
    ∃ front last, (reflow options raw).lines.map (fun line => line.text.toList) = front ++ last ∧
      (∀ line ∈ front, Settled guards line) ∧
      (last = [] ∨ ∃ line, last = [line] ∧ Unended guards line) := by
  have hunsplit := (keepsLiterals_iff options raw).1 h
  have hother : Unsplit guards (pieces (uniform true) (dropMark raw.toList)) := by
    rcases hunsplit with hguard | hnone
    · exact Or.inl (hguards (congrFun hguard .text))
    · exact Or.inr hnone
  rw [map_text_reflow, linesOf, pieces_of_unsplit hunsplit]
  exact Markup.exists_settled hother

/-- The lines of any other document have a split literal. -/
theorem exists_splitLines {options : ReflowOptions} {raw : String}
    (h : ¬ KeepsLiterals options raw) :
    ∃ front line next more, (reflow options raw).lines.map (fun line => line.text.toList) =
      front ++ line :: next :: more ∧ SplitLines front line next := by
  have hguard : options.guardLiterals = false := by
    cases hguard : options.guardLiterals with
    | false => rfl
    | true => exact absurd (Or.inl hguard) h
  rw [keepsLiterals_iff, hguard] at h
  obtain ⟨front, line, next, more, hlines, hsplit, -⟩ := partsAtSplit h
  exact ⟨front, line, next, more, by rw [map_text_reflow, hguard, hlines], hsplit⟩

/-! ## Read again -/

/-- A tag without end is joined to the tag that follows it after a line feed and an indent. -/
theorem exists_pieces_joined {line run : List Char} (h : Unended guards line) (hne : run ≠ [])
    (hrun : AllBlank run) (hrest : meetsTag rest = true) :
    ∃ inside more, pieces guards (line ++ (run ++ rest)) = (line ++ (run ++ inside)) :: more ∧
      eraseBlanks inside ≠ [] := by
  have hmeets := meetsTag_append_of_meetsTag h.isOpen.meetsTag_eq (run ++ rest)
  obtain ⟨scan, hcut⟩ := exists_cutTag?_append_run h.isOpen.meetsTag_eq h.cutTag?_eq
  have hcut := hcut run hne hrun rest
  cases hscan : Scan.cut? guards scan rest with
  | none =>
      rw [hscan, Option.map_none] at hcut
      refine ⟨rest, [], pieces_open hmeets hcut, ?_⟩
      obtain ⟨after, rfl⟩ := exists_of_meetsTag hrest
      rw [eraseBlanks_cons (by decide)]
      simp
  | some cut =>
      rw [hscan, Option.map_some] at hcut
      refine ⟨cut.1, pieces guards cut.2, pieces_tag hmeets hcut, ?_⟩
      obtain ⟨-, front, hfront⟩ := Scan.of_cut?_eq_some hscan
      rw [hfront, eraseBlanks_append, eraseBlanks_cons (by decide)]
      simp

/-- Lines with a split literal are cut before the line of its front. -/
theorem exists_lines_of_split {lines : List Line} {front more : List (List Char)}
    {line next : List Char}
    (hlines : lines.map (fun line => line.text.toList) = front ++ line :: next :: more)
    (hsplit : SplitLines front line next) :
    ∃ (settled : List Line) (first second : Line) (others : List Line),
      lines = settled ++ first :: second :: others ∧
      (∀ guards, ∀ l ∈ settled, Settled guards l.text.toList) ∧
      (∀ guards, Unended guards first.text.toList) ∧ meetsTag second.text.toList = true := by
  obtain ⟨settled, rest, rfl, rfl, hrest⟩ := List.map_eq_append_iff.1 hlines
  obtain ⟨first, rest, rfl, rfl, hrest'⟩ := List.map_eq_cons_iff.1 hrest
  obtain ⟨second, others, rfl, rfl, -⟩ := List.map_eq_cons_iff.1 hrest'
  refine ⟨settled, first, second, others, rfl, ?_, hsplit.unended, hsplit.meetsTag_next⟩
  intro guards l hl
  exact hsplit.settled guards _ (List.mem_map_of_mem hl)

/-- In a rendered document the line of a split literal is joined to the line after it. -/
theorem exists_pieces_rendered {unit : List Char} (hunit : AllBlank unit) {line next : Line}
    (h : Unended guards line.text.toList) (hnext : meetsTag next.text.toList = true)
    (lines : List Line) :
    ∃ text inside more, rendered unit (line :: next :: lines) = line.indent unit ++ text ∧
      pieces guards text =
        (line.text.toList ++ ('\n' :: next.indent unit ++ inside)) :: more ∧
      eraseBlanks inside ≠ [] := by
  obtain ⟨rest, hrendered, -⟩ := exists_rendered_cons unit next lines
  have hrun : AllBlank ('\n' :: next.indent unit) :=
    allBlank_cons.2 ⟨by decide, next.allBlank_indent hunit⟩
  have hmeets := meetsTag_append_of_meetsTag hnext rest
  obtain ⟨inside, more, hpieces, hinside⟩ := exists_pieces_joined h (by simp) hrun hmeets
  refine ⟨_, inside, more, ?_, hpieces, hinside⟩
  rw [rendered_cons (by simp), hrendered, Line.render_eq, Line.render_eq]
  simp

end

end Markup

end PrettyMarkup
