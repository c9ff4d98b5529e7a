import PrettyMarkup.Proofs.Scan

/-!
# Pieces of a raw text

A text is cut into pieces: tags, each from its `<` to its end or to the end of the text,
line feeds between tags, and the character data between those.  Every piece is laid out by
itself, as one line or as none.

The laws say which piece a text begins with, for tags that are whole, for tags that have no
end yet, and for tags that are cut at a `><` of a literal.
-/

namespace PrettyMarkup

namespace Markup

open Text

/-! ## Tags -/

/-- Cuts a text behind the tag it starts with, if the tag has an end. -/
def cutTag? (guards : Region → Bool) (source : List Char) : Option (List Char × List Char) :=
  let region := Region.ofTagStart source
  (Scan.cut? guards (.start region) (source.drop region.opener.length)).map
    fun (inside, after) => (region.opener ++ inside, after)

namespace Region

/-- A text that starts with a `<` starts with the opener of its region. -/
theorem opener_append_drop {source : List Char} (h : meetsTag source = true) :
    (ofTagStart source).opener ++ source.drop (ofTagStart source).opener.length = source := by
  rw [ofTagStart]
  split
  · rename_i hopen
    exact List.prefix_iff_eq_append.1 (List.isPrefixOf_iff_prefix.1 hopen)
  · split
    · rename_i hopen
      exact List.prefix_iff_eq_append.1 (List.isPrefixOf_iff_prefix.1 hopen)
    · obtain ⟨rest, rfl⟩ := exists_of_meetsTag h
      rfl

theorem isBlank_opener (region : Region) : ∀ c ∈ region.opener, isBlank c = false := by
  apply isBlank_eq_false_of_all
  cases region <;> rfl

theorem sound_ofTagStart (source : List Char) : (ofTagStart source).Sound := by
  rw [ofTagStart]
  split
  · trivial
  · split <;> trivial

theorem ofTagStart_ne_text (source : List Char) : ofTagStart source ≠ .text := by
  rw [ofTagStart]
  split
  · simp
  · split <;> simp

/-- A front is looked for before the first character that does not occur in it. -/
theorem isPrefixOf_append_cons {front : List Char} {c : Char} (h : c ∉ front)
    (text rest : List Char) : front.isPrefixOf (text ++ c :: rest) = front.isPrefixOf text := by
  induction front generalizing text with
  | nil => simp
  | cons d front ih =>
      simp only [List.mem_cons, not_or] at h
      cases text with
      | nil => simp [List.isPrefixOf, Ne.symm h.1]
      | cons e text => simp [List.isPrefixOf, ih h.2]

theorem ofTagStart_append_cons {c : Char} (h : c ∉ commentOpen ++ cdataOpen)
    (text rest : List Char) : ofTagStart (text ++ c :: rest) = ofTagStart text := by
  rw [List.mem_append, not_or] at h
  rw [ofTagStart, ofTagStart, isPrefixOf_append_cons h.1, isPrefixOf_append_cons h.2]

end Region

theorem not_mem_openers_of_isBlank {c : Char} (h : isBlank c = true) :
    c ∉ commentOpen ++ cdataOpen := by
  have hkept : ∀ d ∈ commentOpen ++ cdataOpen, isBlank d = false :=
    isBlank_eq_false_of_all (by decide)
  intro hmem
  exact ne_of_isBlank h (hkept c hmem) rfl

theorem holdsSplit_opener_append (region : Region) (text : List Char) :
    holdsSplit (region.opener ++ text) = holdsSplit text := by
  cases region <;> rfl

section CutTag

variable {guards : Region → Bool} {source tag front after : List Char}

/-- A text that starts with a `<` is read from behind the opener of its region. -/
theorem exists_opener (h : meetsTag source = true) :
    ∃ region inside, source = region.opener ++ inside ∧ Region.ofTagStart source = region ∧
      region.Sound :=
  ⟨_, _, (Region.opener_append_drop h).symm, rfl, Region.sound_ofTagStart source⟩

section Opener

variable {region : Region} {text inside : List Char}
  (hregion : Region.ofTagStart (region.opener ++ text) = region)

include hregion

theorem cutTag?_opener :
    cutTag? guards (region.opener ++ text) =
      (Scan.cut? guards (.start region) text).map
        fun (inside, after) => (region.opener ++ inside, after) := by
  rw [cutTag?, hregion, List.drop_left]

theorem cutTag?_opener_eq_some_iff :
    cutTag? guards (region.opener ++ text) = some (region.opener ++ inside, after) ↔
      Scan.cut? guards (.start region) text = some (inside, after) := by
  simp [cutTag?_opener hregion, Option.map_eq_some_iff]

/-- A tag that is cut off is its opener and what the automaton cuts off behind it. -/
theorem exists_cut?_of_cutTag?_opener
    (h : cutTag? guards (region.opener ++ text) = some (tag, after)) :
    ∃ inside, tag = region.opener ++ inside ∧
      Scan.cut? guards (.start region) text = some (inside, after) := by
  rw [cutTag?_opener hregion] at h
  obtain ⟨⟨inside, after'⟩, hcut, heq⟩ := Option.map_eq_some_iff.1 h
  simp only [Prod.mk.injEq] at heq
  obtain ⟨rfl, rfl⟩ := heq
  exact ⟨inside, rfl, hcut⟩

theorem cutTag?_opener_eq_none_iff :
    cutTag? guards (region.opener ++ text) = none ↔
      Scan.cut? guards (.start region) text = none := by
  rw [cutTag?_opener hregion, Option.map_eq_none_iff]

/-- The region is known before the first character that no opener holds. -/
theorem ofTagStart_opener_append {c : Char} (h : c ∉ commentOpen ++ cdataOpen)
    (rest : List Char) : Region.ofTagStart (region.opener ++ (text ++ c :: rest)) = region := by
  rw [← List.append_assoc, Region.ofTagStart_append_cons h, hregion]

end Opener

theorem meetsTag_opener_append (region : Region) (text : List Char) :
    meetsTag (region.opener ++ text) = true := by
  cases region <;> rfl

/-- A cut loses nothing; the tag it cuts off has its brackets. -/
theorem of_cutTag?_eq_some (hsource : meetsTag source = true)
    (h : cutTag? guards source = some (tag, after)) :
    tag ++ after = source ∧ ∃ front, meetsTag front = true ∧ tag = front ++ ['>'] := by
  obtain ⟨region, text, rfl, hregion, -⟩ := exists_opener hsource
  obtain ⟨inside, rfl, hcut⟩ := exists_cut?_of_cutTag?_opener hregion h
  obtain ⟨rfl, front, rfl⟩ := Scan.of_cut?_eq_some hcut
  exact ⟨List.append_assoc .., region.opener ++ front, meetsTag_opener_append region front,
    (List.append_assoc ..).symm⟩

theorem length_lt_of_cutTag? (hsource : meetsTag source = true)
    (h : cutTag? guards source = some (tag, after)) : after.length < source.length := by
  obtain ⟨rfl, front, -, rfl⟩ := of_cutTag?_eq_some hsource h
  rw [List.length_append, List.length_append, List.length_singleton]
  omega

theorem meetsTag_of_cutTag? (hsource : meetsTag source = true)
    (h : cutTag? guards source = some (tag, after)) : meetsTag tag = true := by
  obtain ⟨-, front, hfront, rfl⟩ := of_cutTag?_eq_some hsource h
  exact meetsTag_append_of_meetsTag hfront ['>']

/-- Whatever a guarded cut cuts off is a whole tag. -/
theorem cutTag?_inside (hsource : meetsTag source = true)
    (h : cutTag? (uniform true) source = some (tag, after)) :
    cutTag? (uniform true) tag = some (tag, []) := by
  obtain ⟨region, text, rfl, hregion, -⟩ := exists_opener hsource
  obtain ⟨inside, rfl, hcut⟩ := exists_cut?_of_cutTag?_opener hregion h
  obtain ⟨rfl, front, rfl⟩ := Scan.of_cut?_eq_some hcut
  have htag : Region.ofTagStart (region.opener ++ (front ++ ['>'])) = region := by
    rw [List.append_assoc, List.singleton_append, ← List.append_assoc,
      Region.ofTagStart_append_cons (by decide)] at hregion
    rw [← List.append_assoc, Region.ofTagStart_append_cons (by decide), hregion]
  rw [cutTag?_opener_eq_some_iff htag]
  exact Scan.cut?_inside hcut

/-- A whole tag is cut off whatever follows it, if no literal of it is split. -/
theorem cutTag?_append_of_closed (htag : meetsTag tag = true)
    (h : cutTag? (uniform true) tag = some (tag, []))
    (hsplit : guards = uniform true ∨ holdsSplit tag = false) (rest : List Char) :
    cutTag? guards (tag ++ rest) = some (tag, rest) := by
  obtain ⟨region, inside, rfl, hregion, -⟩ := exists_opener htag
  rw [cutTag?_opener_eq_some_iff hregion] at h
  rw [holdsSplit_opener_append] at hsplit
  obtain ⟨-, front, rfl⟩ := Scan.of_cut?_eq_some h
  have hrest : Region.ofTagStart (region.opener ++ (front ++ ['>'] ++ rest)) = region := by
    rw [← List.append_assoc, Region.ofTagStart_append_cons (by decide)] at hregion
    rw [List.append_assoc, ← List.append_assoc, List.singleton_append,
      Region.ofTagStart_append_cons (by decide), hregion]
  rw [List.append_assoc, cutTag?_opener_eq_some_iff hrest]
  exact Scan.cut?_append_of_closed h hsplit rest

/-- A whole tag has no end before its last character. -/
theorem cutTag?_front (hfront : meetsTag front = true)
    (h : cutTag? (uniform true) (front ++ ['>']) = some (front ++ ['>'], [])) :
    cutTag? (uniform true) front = none := by
  obtain ⟨region, inside, rfl, hregion, -⟩ := exists_opener hfront
  rw [List.append_assoc,
    cutTag?_opener_eq_some_iff (ofTagStart_opener_append hregion (by decide) [])] at h
  rw [cutTag?_opener_eq_none_iff hregion]
  exact Scan.cut?_front h

/-- A text in which a guarded tag has no end is a tag without end, if no literal is split. -/
theorem cutTag?_eq_none_of_open (hfront : meetsTag front = true)
    (h : cutTag? (uniform true) front = none)
    (hsplit : guards = uniform true ∨ holdsSplit front = false) : cutTag? guards front = none := by
  obtain ⟨region, inside, rfl, hregion, -⟩ := exists_opener hfront
  rw [cutTag?_opener_eq_none_iff hregion] at h ⊢
  rw [holdsSplit_opener_append] at hsplit
  exact Scan.cut?_eq_none_of_open h hsplit

theorem meetsTag_blank {c : Char} (hc : isBlank c = true) (rest : List Char) :
    meetsTag (c :: rest) = false := by
  have hlt : c ≠ '<' := ne_of_isBlank hc (by decide)
  simp [meetsTag, hlt]

/-- A tag that ends in a text is cut off whatever follows the text. -/
theorem cutTag?_append (hfront : meetsTag front = true)
    (h : cutTag? guards front = some (tag, after)) (rest : List Char) :
    cutTag? guards (front ++ rest) = some (tag, after ++ rest) := by
  obtain ⟨region, text, rfl, hregion, -⟩ := exists_opener hfront
  obtain ⟨inside, rfl, hcut⟩ := exists_cut?_of_cutTag?_opener hregion h
  obtain ⟨rfl, start, rfl⟩ := Scan.of_cut?_eq_some hcut
  -- The `>` of the tag is in the text, so what follows makes no longer opener.
  have hstart : Region.ofTagStart (region.opener ++ start) = region := by
    rw [List.append_assoc, List.singleton_append, ← List.append_assoc,
      Region.ofTagStart_append_cons (by decide)] at hregion
    exact hregion
  have hlong := ofTagStart_opener_append hstart (show '>' ∉ commentOpen ++ cdataOpen by decide)
    (after ++ rest)
  have hcat : start ++ ['>'] ++ after ++ rest = start ++ '>' :: (after ++ rest) := by simp
  rw [← hcat] at hlong
  rw [List.append_assoc, cutTag?_opener_eq_some_iff hlong]
  exact Scan.cut?_append_of_some hcut rest

/-- A tag without end goes on over a letter. -/
theorem cutTag?_concat_of_none {c : Char} (hc : c ∉ commentOpen ++ cdataOpen) (hgt : c ≠ '>')
    (hsource : meetsTag source = true) (h : cutTag? guards source = none) :
    cutTag? guards (source ++ [c]) = none := by
  obtain ⟨region, text, rfl, hregion, -⟩ := exists_opener hsource
  have hlt : c ≠ '<' := by
    rintro rfl
    exact hc (by decide)
  have hmeets : meetsTag [c] = false := by simpa [meetsTag] using hlt
  rw [cutTag?_opener_eq_none_iff hregion] at h
  rw [List.append_assoc, cutTag?_opener_eq_none_iff (ofTagStart_opener_append hregion hc []),
    Scan.cut?_append_of_none hmeets h, Option.map_eq_none_iff, Scan.cut?_cons_eq_none]
  simp [Scan.ends, hgt]

/-- A tag without end goes on over blanks that follow it, whichever they are. -/
theorem exists_cutTag?_append_run (hfront : meetsTag front = true)
    (h : cutTag? guards front = none) :
    ∃ scan : Scan, ∀ run, run ≠ [] → AllBlank run → ∀ rest,
      cutTag? guards (front ++ (run ++ rest)) =
        (Scan.cut? guards scan rest).map
          fun (inside, after) => (front ++ (run ++ inside), after) := by
  obtain ⟨region, inside, rfl, hregion, hsound⟩ := exists_opener hfront
  rw [cutTag?_opener_eq_none_iff hregion] at h
  refine ⟨.start ((Scan.start region).after inside).region, fun run hne hrun rest => ?_⟩
  obtain ⟨c, run, rfl⟩ := List.exists_cons_of_ne_nil hne
  have hc : isBlank c = true := (allBlank_cons.1 hrun).1
  have hmeets : meetsTag (c :: run ++ rest) = false := meetsTag_blank hc (run ++ rest)
  have hrest : Region.ofTagStart (region.opener ++ (inside ++ (c :: run ++ rest))) = region :=
    ofTagStart_opener_append hregion (not_mem_openers_of_isBlank hc) (run ++ rest)
  rw [List.append_assoc, cutTag?_opener hrest, Scan.cut?_append_of_none hmeets h,
    Scan.cut?_run (Scan.sound_after hsound inside) hne hrun]
  simp [Option.map_map, Function.comp_def]

/-- The first `><` of an open tag is where the tag ends unguarded. -/
theorem exists_cutTag?_of_holdsSplit (hfront : meetsTag front = true)
    (h : cutTag? (uniform true) front = none) (hsplit : holdsSplit front = true) :
    ∃ before after, front = before ++ '<' :: after ∧ meetsTag before = true ∧
      holdsSplit before = false ∧ cutTag? (uniform true) before = none ∧
      ∀ rest, cutTag? (uniform false) (front ++ rest) = some (before, '<' :: after ++ rest) := by
  obtain ⟨region, inside, rfl, hregion, -⟩ := exists_opener hfront
  rw [cutTag?_opener_eq_none_iff hregion] at h
  rw [holdsSplit_opener_append] at hsplit
  obtain ⟨before, after, rfl, hbefore, hopen, hcut⟩ := Scan.exists_cut?_of_holdsSplit h hsplit
  obtain ⟨-, start, rfl⟩ := Scan.of_cut?_eq_some (hcut [])
  have hstart : Region.ofTagStart (region.opener ++ start) = region := by
    rw [List.append_assoc, List.singleton_append, ← List.append_assoc,
      Region.ofTagStart_append_cons (by decide)] at hregion
    exact hregion
  refine ⟨region.opener ++ (start ++ ['>']), after, by simp, meetsTag_opener_append _ _, ?_, ?_, ?_⟩
  · rw [holdsSplit_opener_append, hbefore]
  · rw [cutTag?_opener_eq_none_iff (ofTagStart_opener_append hstart (by decide) [])]
    exact hopen
  · intro rest
    have hrest : Region.ofTagStart (region.opener ++ (start ++ '>' :: ('<' :: after ++ rest))) =
        region := ofTagStart_opener_append hstart (by decide) _
    have hcat : region.opener ++ (start ++ ['>'] ++ '<' :: after) ++ rest =
        region.opener ++ (start ++ '>' :: ('<' :: after ++ rest)) := by simp
    rw [hcat, cutTag?_opener_eq_some_iff hrest, ← hcut rest]
    simp

theorem Region.ofTagStart_respaced {a b : List Char} (h : Respaced a b) :
    ofTagStart a = ofTagStart b := by
  have hcomment : commentOpen.isPrefixOf a = commentOpen.isPrefixOf b :=
    h.isPrefixOf_eq comment.isBlank_opener
  have hcdata : cdataOpen.isPrefixOf a = cdataOpen.isPrefixOf b :=
    h.isPrefixOf_eq cdata.isBlank_opener
  rw [ofTagStart, ofTagStart, hcomment, hcdata]

/-- Respaced texts start with tags that are respaced forms of each other. -/
theorem cutTag?_respaced (guards : Region → Bool) {a b : List Char} (ha : meetsTag a = true)
    (h : Respaced a b) : Scan.CutAlike (cutTag? guards a) (cutTag? guards b) := by
  obtain ⟨region, text, rfl, hregion, hsound⟩ := exists_opener ha
  have hsame := Region.ofTagStart_respaced h
  obtain ⟨text', rfl, htext⟩ := h.exists_append region.isBlank_opener
  rw [cutTag?_opener hregion, cutTag?_opener (hsame.symm.trans hregion)]
  exact (Scan.cut?_respaced guards (.start region) hsound htext).prepend (.refl _)

end CutTag

/-! ## Pieces -/

/-- Whether a character may stand in a line of character data. -/
def isData (c : Char) : Bool := c != '<' && c != '\n'

theorem not_mem_of_isData {data : List Char} (h : ∀ c ∈ data, isData c = true) : '<' ∉ data :=
  fun hmem => absurd (h '<' hmem) (by decide)

theorem meetsTag_of_isData {data : List Char} (h : ∀ c ∈ data, isData c = true) :
    meetsTag data = false := meetsTag_eq_false (not_mem_of_isData h)

/-- The pieces of a text: tags, and between them line feeds and lines of character data. -/
def pieces (guards : Region → Bool) : List Char → List (List Char)
  | [] => []
  | c :: rest =>
    if _hc : c = '<' then
      match _h : cutTag? guards (c :: rest) with
      | some (tag, after) => tag :: pieces guards after
      | none => [c :: rest]
    else if c = '\n' then ['\n'] :: pieces guards rest
    else (c :: rest.takeWhile isData) :: pieces guards (rest.dropWhile isData)
  termination_by source => source.length
  decreasing_by
    · obtain ⟨hcat, front, -, rfl⟩ := of_cutTag?_eq_some (by simp [meetsTag, _hc]) _h
      rw [← hcat]
      simp only [List.length_append, List.length_singleton]
      omega
    · simp
    · have := (List.dropWhile_suffix isData (l := rest)).length_le
      simp only [List.length_cons]
      omega

/-- The line that a piece is laid out as, or nothing. -/
def layOut (piece : List Char) : List (List Char) :=
  let line := if meetsTag piece then onOneLine piece else trim piece
  if line.isEmpty then [] else [line]

@[simp] theorem layOut_break : layOut ['\n'] = [] := by decide

section Pieces

variable {guards : Region → Bool}

@[simp] theorem pieces_nil : pieces guards [] = [] := by
  rw [pieces]

theorem pieces_tag {source tag after : List Char} (hsource : meetsTag source = true)
    (h : cutTag? guards source = some (tag, after)) :
    pieces guards source = tag :: pieces guards after := by
  obtain ⟨rest, rfl⟩ := exists_of_meetsTag hsource
  rw [pieces, dif_pos rfl]
  split
  · rename_i tag' after' h'
    rw [h, Option.some.injEq, Prod.mk.injEq] at h'
    rw [h'.1, h'.2]
  · rename_i h'
    rw [h] at h'
    simp at h'

theorem pieces_open {source : List Char} (hsource : meetsTag source = true)
    (h : cutTag? guards source = none) : pieces guards source = [source] := by
  obtain ⟨rest, rfl⟩ := exists_of_meetsTag hsource
  rw [pieces, dif_pos rfl]
  split
  · rename_i h'
    rw [h] at h'
    simp at h'
  · rfl

@[simp] theorem pieces_break (rest : List Char) :
    pieces guards ('\n' :: rest) = ['\n'] :: pieces guards rest := by
  rw [pieces, dif_neg (by decide), if_pos rfl]

/-- A line of character data is a piece up to the tag, the line feed or the end behind it. -/
theorem pieces_data {data rest : List Char} (hne : data ≠ []) (hdata : ∀ c ∈ data, isData c = true)
    (hrest : ∀ c ∈ rest.head?, isData c = false) :
    pieces guards (data ++ rest) = data :: pieces guards rest := by
  obtain ⟨c, data, rfl⟩ := List.exists_cons_of_ne_nil hne
  obtain ⟨hc, hdata⟩ := List.forall_mem_cons.1 hdata
  have hplain : c ≠ '<' ∧ c ≠ '\n' := by simpa [isData] using hc
  obtain ⟨htake, hdrop⟩ := takeWhile_dropWhile_append hdata hrest
  rw [List.cons_append, pieces, dif_neg hplain.1, if_neg hplain.2, htake, hdrop]

/-- Induction along the pieces of a text. -/
@[elab_as_elim]
theorem pieces_induction (guards : Region → Bool) {motive : List Char → Prop} (nil : motive [])
    (tag : ∀ source tag after, meetsTag source = true →
      cutTag? guards source = some (tag, after) → motive after → motive source)
    (unended : ∀ source, meetsTag source = true → cutTag? guards source = none → motive source)
    (line_feed : ∀ rest, motive rest → motive ('\n' :: rest))
    (data : ∀ data rest, data ≠ [] → (∀ c ∈ data, isData c = true) →
      (∀ c ∈ rest.head?, isData c = false) → motive rest → motive (data ++ rest))
    (source : List Char) : motive source := by
  fun_induction pieces guards source with
  | case1 => exact nil
  | case2 rest tag' after h ih => exact tag _ tag' after rfl h ih
  | case3 rest h => exact unended _ rfl h
  | case4 rest h ih => exact line_feed rest ih
  | case5 c rest hc hbreak ih =>
      rw [← cons_takeWhile_append_dropWhile isData c rest]
      refine data _ _ (by simp) ?_ ?_ ih
      · intro d hd
        rcases List.mem_cons.1 hd with rfl | hd
        · simp [isData, hc, hbreak]
        · exact List.mem_takeWhile_imp hd
      · intro d hd
        exact eq_false_of_mem_head?_dropWhile isData rest hd

/-- The pieces of a text make up the text. -/
theorem flatten_pieces (source : List Char) : (pieces guards source).flatten = source := by
  induction source using pieces_induction guards with
  | nil => rw [pieces_nil, List.flatten_nil]
  | tag source tag after hsource h ih =>
      rw [pieces_tag hsource h, List.flatten_cons, ih]
      exact (of_cutTag?_eq_some hsource h).1
  | unended source hsource h => rw [pieces_open hsource h, List.flatten_singleton]
  | line_feed rest ih => rw [pieces_break, List.flatten_cons, ih, List.singleton_append]
  | data data rest hne hdata hrest ih => rw [pieces_data hne hdata hrest, List.flatten_cons, ih]

/-- A character in front of a text makes its first piece longer, or is a piece of its own. -/
theorem exists_pieces_cons (guards : Region → Bool) {c : Char} (hc : c ≠ '<')
    (source : List Char) :
    ∃ data rest, '<' ∉ data ∧ source = data ++ rest ∧
      pieces guards (c :: source) = (c :: data) :: pieces guards rest ∧
      pieces guards source = (if data.isEmpty then [] else [data]) ++ pieces guards rest := by
  by_cases hbreak : c = '\n'
  · exact ⟨[], source, by simp, rfl, by rw [hbreak, pieces_break], rfl⟩
  · have hdata : ∀ d ∈ source.takeWhile isData, isData d = true := fun d => List.mem_takeWhile_imp
    have hrest : ∀ d ∈ (source.dropWhile isData).head?, isData d = false :=
      fun d => eq_false_of_mem_head?_dropWhile isData source
    have hcut : source.takeWhile isData ++ source.dropWhile isData = source :=
      List.takeWhile_append_dropWhile
    refine ⟨source.takeWhile isData, source.dropWhile isData, not_mem_of_isData hdata, hcut.symm,
      ?_, ?_⟩
    · rw [pieces, dif_neg hc, if_neg hbreak]
    · cases hnil : (source.takeWhile isData).isEmpty with
      | true =>
          rw [List.isEmpty_iff.1 hnil, List.nil_append] at hcut
          rw [hcut]
          rfl
      | false =>
          have hne : source.takeWhile isData ≠ [] := by simpa using hnil
          have hpieces := @pieces_data guards _ _ hne hdata hrest
          rw [hcut] at hpieces
          rw [hpieces]
          rfl

end Pieces

end Markup

end PrettyMarkup
