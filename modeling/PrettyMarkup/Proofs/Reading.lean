import PrettyMarkup.Proofs.Pieces

/-!
# The reader of fragments reads pieces

The reader of `Markup/Fragment` goes through a text character by character, folds line
breaks while it reads, and looks at what it holds to find the end of a tag.  Here it is shown
to cut the text into its pieces and to lay each of them out: `fragments_eq`.

Two invariants carry the proof.  What the reader holds of a tag is the folded text of what
it has read (`held_foldl_feed`), and the end of what it holds shows what the automaton
remembers (`Follows`), since blanks and folded line breaks are never marks.
-/

namespace PrettyMarkup

namespace Markup

open Text

namespace Reading

/-- Reads a character of a tag, whatever it is. -/
def feed (reading : Reading) (c : Char) : Reading :=
  if isLineBreak c then reading.fold else reading.push c

theorem feed_of_kept {reading : Reading} {c : Char} (hc : isBlank c = false) :
    reading.feed c = { reading with held := c :: reading.held, folding := false } := by
  have hbreak : isLineBreak c = false := by
    cases h : isLineBreak c with
    | false => rfl
    | true => simp [isBlank_of_isLineBreak h] at hc
  simp [feed, hbreak, push, hc]

@[simp] theorem feed_region (reading : Reading) (c : Char) :
    (reading.feed c).region = reading.region := by
  simp only [feed, fold, push]
  split <;> split <;> rfl

@[simp] theorem feed_finished (reading : Reading) (c : Char) :
    (reading.feed c).finished = reading.finished := by
  simp only [feed, fold, push]
  split <;> split <;> rfl

theorem feed_withRegion (reading : Reading) (region : Region) (c : Char) :
    { reading with region := region }.feed c = { reading.feed c with region := region } := by
  simp only [feed, fold, push]
  split <;> split <;> rfl

theorem foldl_feed_withRegion (reading : Reading) (region : Region) (text : List Char) :
    text.foldl feed { reading with region := region } =
      { text.foldl feed reading with region := region } := by
  induction text generalizing reading with
  | nil => rfl
  | cons c text ih => rw [List.foldl_cons, List.foldl_cons, feed_withRegion, ih]

@[simp] theorem foldl_feed_finished (reading : Reading) (text : List Char) :
    (text.foldl feed reading).finished = reading.finished := by
  induction text generalizing reading with
  | nil => rfl
  | cons c text ih => rw [List.foldl_cons, ih, feed_finished]

/-! ## Folding while reading -/

/-- While a line break is being folded, blanks change nothing. -/
theorem foldl_feed_folding {reading : Reading} (h : reading.folding = true) {run : List Char}
    (hrun : AllBlank run) : run.foldl feed reading = reading := by
  induction run with
  | nil => rfl
  | cons c run ih =>
      obtain ⟨hc, hrun⟩ := allBlank_cons.1 hrun
      have hfeed : reading.feed c = reading := by
        simp only [feed, fold, push, h, hc]
        split <;> rfl
      rw [List.foldl_cons, hfeed, ih hrun]

/-- A run of blanks, of which `before` has been read already, is held as it is folded. -/
theorem held_foldl_feed_run {reading : Reading} (h : reading.folding = false)
    (before : List Char) {kept run : List Char} (hheld : reading.held = before.reverse ++ kept)
    (hbefore : AllBlank before) (hbreak : before.any isLineBreak = false)
    (hkept : ∀ c ∈ kept.head?, isBlank c = false) (hrun : AllBlank run) :
    (run.foldl feed reading).held = (foldRun (before ++ run)).reverse ++ kept := by
  induction run generalizing reading before with
  | nil => simp [foldRun, hbreak, hheld]
  | cons c run ih =>
      obtain ⟨hc, hrun⟩ := allBlank_cons.1 hrun
      rw [List.foldl_cons]
      cases hcb : isLineBreak c with
      | true =>
          have hdrop : reading.held.dropWhile isBlank = kept := by
            rw [hheld, List.dropWhile_append_of_pos hbefore.reverse]
            cases kept with
            | nil => rfl
            | cons d kept => simp [hkept d (by simp)]
          have hfeed : reading.feed c = { reading with held := ' ' :: kept, folding := true } := by
            simp [feed, hcb, fold, h, hdrop]
          rw [hfeed, foldl_feed_folding rfl hrun]
          simp [foldRun, hcb]
      | false =>
          have hfeed : reading.feed c = { reading with held := c :: reading.held } := by
            simp [feed, hcb, push, h]
          have hmore : before ++ c :: run = before ++ [c] ++ run := by simp
          rw [hmore, hfeed]
          refine ih (by simpa using h) (before ++ [c]) ?_ ?_ ?_ hrun
          · simp [hheld]
          · exact allBlank_append.2 ⟨hbefore, allBlank_cons.2 ⟨hc, allBlank_nil⟩⟩
          · simp [hbreak, hcb]

/-- What is held of a text that is read from a boundary of blanks is the folded text. -/
theorem held_foldl_feed {reading : Reading} {text : List Char}
    (h : ∀ c ∈ text.head?, isBlank c = true →
      reading.folding = false ∧ ∀ d ∈ reading.held.head?, isBlank d = false) :
    (text.foldl feed reading).held = (foldRuns text).reverse ++ reading.held := by
  fun_induction foldRuns text generalizing reading with
  | case1 => rfl
  | case2 c rest hc ih =>
      obtain ⟨hfolding, hkept⟩ := h c (by simp) hc
      have hheld :=
        held_foldl_feed_run hfolding [] rfl allBlank_nil rfl hkept (allBlank_run hc rest)
      rw [← cons_takeWhile_append_dropWhile isBlank c rest, List.foldl_append, ih, hheld,
        List.nil_append, List.reverse_append, List.append_assoc]
      -- The run is over: what follows does not start with a blank.
      intro d hd hblank
      rw [eq_false_of_mem_head?_dropWhile isBlank rest hd] at hblank
      simp at hblank
  | case3 c rest hc ih =>
      have hc : isBlank c = false := by simpa using hc
      rw [List.foldl_cons, feed_of_kept hc, ih]
      · simp
      · intro d _ _
        exact ⟨rfl, by simp [hc]⟩

/-! ## The reader follows the automaton -/

/-- The reader stands where the automaton stands: in the same region of a tag, with `body` held
behind the opener, and the end of it shows what the automaton remembers. -/
structure Follows (scan : Scan) (body : List Char) (reading : Reading) : Prop where
  region_eq : reading.region = scan.region
  region_ne : scan.region ≠ .text
  sound : scan.region.Sound
  held_eq : reading.held = body ++ scan.region.opener.reverse
  marked_eq : scan.marked = (body.head? == some scan.region.mark)
  doubled_eq : scan.doubled = [scan.region.mark, scan.region.mark].isPrefixOf body
  head?_of_folding : reading.folding = true → body.head? = some ' '

theorem next_opener_mark (scan : Scan) (c : Char) :
    (scan.next c).region.opener = scan.region.opener ∧
      (scan.next c).region.mark = scan.region.mark := by
  obtain ⟨region, marked, doubled⟩ := scan
  cases region with
  | tag => cases hc : isQuote c && marked <;> simp [Scan.next, hc, Region.opener, Region.mark]
  | quoted quote => cases hc : c == quote <;> simp [Scan.next, hc, Region.opener, Region.mark]
  | _ => exact ⟨rfl, rfl⟩

/-- Inside a tag the automaton stays inside. -/
theorem next_region_ne_text {scan : Scan} (h : scan.region ≠ .text) (c : Char) :
    (scan.next c).region ≠ .text := by
  obtain ⟨region, marked, doubled⟩ := scan
  cases region with
  | text => exact absurd rfl h
  | tag => cases hc : isQuote c && marked <;> simp [Scan.next, hc]
  | quoted quote => cases hc : c == quote <;> simp [Scan.next, hc]
  | comment => exact h
  | cdata => exact h

theorem after_region_ne_text {region : Region} (h : region ≠ .text) (text : List Char) :
    ((Scan.start region).after text).region ≠ .text := by
  induction text using List.reverseRecOn with
  | nil => exact h
  | append_singleton text c ih =>
      rw [Scan.after_concat]
      exact next_region_ne_text ih c

/-- Feeding a blank leaves a blank at the end of what is held. -/
theorem Follows.feed_blank {scan : Scan} {body : List Char} {reading : Reading}
    (h : Follows scan body reading) {c : Char} (hc : isBlank c = true) :
    ∃ d body', isBlank d = true ∧
      (reading.feed c).held = d :: body' ++ scan.region.opener.reverse ∧
      ((reading.feed c).folding = true → d = ' ') := by
  have hopener : ∀ d ∈ scan.region.opener.reverse.head?, isBlank d = false := by
    intro d hd
    exact scan.region.isBlank_opener d (List.mem_reverse.1 (List.mem_of_mem_head? hd))
  cases hfolding : reading.folding with
  | true =>
      obtain ⟨body', rfl⟩ := List.head?_eq_some_iff.1 (h.head?_of_folding hfolding)
      refine ⟨' ', body', by decide, ?_, fun _ => rfl⟩
      rw [← h.held_eq]
      simp only [feed, fold, push, hfolding, hc]
      split <;> rfl
  | false =>
      cases hcb : isLineBreak c with
      | true =>
          refine ⟨' ', body.dropWhile isBlank, by decide, ?_, fun _ => rfl⟩
          have hdrop : reading.held.dropWhile isBlank =
              body.dropWhile isBlank ++ scan.region.opener.reverse := by
            rw [h.held_eq, List.dropWhile_append]
            split
            · rename_i hnil
              rw [List.isEmpty_iff.1 hnil]
              cases hrev : scan.region.opener.reverse with
              | nil => rfl
              | cons d rest => simp [hopener d (by simp [hrev])]
            · rfl
          simp [feed, hcb, fold, hfolding, hdrop]
      | false =>
          refine ⟨c, body, hc, ?_, ?_⟩
          · simp [feed, hcb, push, hfolding, h.held_eq]
          · simp [feed, hcb, push, hfolding]

/-- One step of the automaton, where the tag does not end. -/
theorem Follows.feed_next {scan : Scan} {body : List Char} {reading : Reading}
    (h : Follows scan body reading) (c : Char) :
    ∃ body', Follows (scan.next c) body'
      { reading.feed c with region := (scan.next c).region } := by
  obtain ⟨hopener, hmark⟩ := next_opener_mark scan c
  have hne := next_region_ne_text h.region_ne c
  have hsound := Scan.sound_next h.sound c
  cases hc : isBlank c with
  | true =>
      obtain ⟨d, body', hd, hheld, hspace⟩ := h.feed_blank hc
      have hdm : (d == scan.region.mark) = false := by
        rw [beq_eq_false_iff_ne]
        exact ne_of_isBlank hd (by cases scan.region <;> rfl)
      have hstart := Scan.next_of_isBlank h.sound hc
      refine ⟨d :: body', rfl, hne, hsound, ?_, ?_, ?_, ?_⟩
      · rw [hopener]
        exact hheld
      · rw [hmark, hstart, List.head?_cons]
        simpa [Scan.start] using hdm
      · have hmd : (scan.region.mark == d) = false := by rw [BEq.comm, hdm]
        rw [hmark, hstart]
        simp [Scan.start, List.isPrefixOf, hmd]
      · intro hfolding
        rw [hspace hfolding]
        rfl
  | false =>
      rw [feed_of_kept hc]
      refine ⟨c :: body, rfl, hne, hsound, ?_, ?_, ?_, by simp⟩
      · rw [hopener, List.cons_append, ← h.held_eq]
      · rw [hmark]
        rfl
      · rw [hmark]
        cases body with
        | nil => simp [Scan.next, h.marked_eq, List.isPrefixOf]
        | cons d body =>
            have hcm : (scan.region.mark == c) = (c == scan.region.mark) := BEq.comm
            have hdm : (scan.region.mark == d) = (d == scan.region.mark) := BEq.comm
            simp [Scan.next, h.marked_eq, List.isPrefixOf, hcm, hdm, Bool.and_comm]

/-- A closer is found at the end of what is held only if the opener has no part in it. -/
theorem isPrefixOf_closer (mark : Char) (body opener : List Char) :
    (['>', mark, mark].isPrefixOf ('>' :: (body ++ opener)) &&
        decide (opener.length + 3 ≤ ('>' :: (body ++ opener)).length)) =
      [mark, mark].isPrefixOf body := by
  rcases body with _ | ⟨c, _ | ⟨d, body⟩⟩
  · have hlong : ¬ opener.length + 3 ≤ ('>' :: ([] ++ opener)).length := by simp
    rw [decide_eq_false hlong, Bool.and_false]
    rfl
  · have hlong : ¬ opener.length + 3 ≤ ('>' :: ([c] ++ opener)).length := by simp
    rw [decide_eq_false hlong, Bool.and_false]
    simp [List.isPrefixOf]
  · have hlong : opener.length + 3 ≤ ('>' :: (c :: d :: body ++ opener)).length := by
      simp only [List.length_cons, List.length_append]
      omega
    rw [decide_eq_true hlong, Bool.and_true]
    simp [List.isPrefixOf]

/-- The section is closed where the automaton has seen the mark twice. -/
theorem Follows.closesSection_push {scan : Scan} {body : List Char} {reading : Reading}
    (h : Follows scan body reading) (hregion : scan.region = .comment ∨ scan.region = .cdata) :
    (reading.push '>').closesSection = scan.doubled := by
  have hgt : isBlank '>' = false := by decide
  have hpush : reading.push '>' =
      { reading with held := '>' :: reading.held, folding := false } := by
    simp [push, hgt]
  rw [hpush, closesSection, h.region_eq, h.held_eq, h.doubled_eq]
  rcases hregion with hregion | hregion
  · rw [hregion, ← isPrefixOf_closer _ _ (Region.opener .comment).reverse]
    rfl
  · rw [hregion, ← isPrefixOf_closer _ _ (Region.opener .cdata).reverse]
    rfl

theorem finish_withRegion (reading : Reading) (region : Region) :
    { reading with region := region }.finish = reading.finish := rfl

section Step

variable {scan : Scan} {body : List Char} {reading : Reading} {c : Char}

/-- Where the automaton keeps its region, nothing but what is held changes. -/
theorem Follows.feed_withRegion_self (h : Follows scan body reading) (c : Char) :
    { reading.feed c with region := scan.region } = reading.feed c := by
  rw [← h.region_eq, ← feed_region reading c]

/-- A line break in a tag is folded, wherever it stands. -/
theorem Follows.step_line_break (h : Follows scan body reading) (hbreak : isLineBreak c = true)
    (guard : Bool) (rest : List Char) :
    reading.step guard c rest = { reading.feed c with region := (scan.next c).region } := by
  have hblank := isBlank_of_isLineBreak hbreak
  have hgt : c ≠ '>' := ne_of_isBlank hblank (by decide)
  have hstep : reading.step guard c rest = reading.feed c := by
    have hne := h.region_ne
    rw [feed, if_pos hbreak, step, h.region_eq]
    cases hregion : scan.region with
    | text => exact absurd hregion hne
    | _ => simp [hgt, hbreak]
  rw [hstep, Scan.next_of_isBlank h.sound hblank]
  exact (h.feed_withRegion_self c).symm

variable (hbreak : isLineBreak c = false)

include hbreak

theorem feed_of_not_line_break (reading : Reading) : reading.feed c = reading.push c := by
  simp [feed, hbreak]

theorem Follows.step_tag (h : Follows scan body reading) (hregion : scan.region = .tag)
    (guard : Bool) (rest : List Char) :
    reading.step guard c rest =
      if scan.ends (uniform guard) c rest then (reading.feed c).finish
      else { reading.feed c with region := (scan.next c).region } := by
  have hsame := h.feed_withRegion_self c
  have hequals : (reading.held.head? == some '=') = scan.marked := by
    rw [h.held_eq, h.marked_eq, hregion]
    cases body <;> rfl
  rw [feed_of_not_line_break hbreak, hregion] at hsame
  rw [feed_of_not_line_break hbreak, step, h.region_eq, hregion]
  cases hgt : c == '>' with
  | true => simp [Scan.ends, Scan.closes, hregion, hgt]
  | false =>
      cases hquote : isQuote c && scan.marked with
      | true => simp [Scan.ends, Scan.next, hregion, hgt, hbreak, hequals, hquote]
      | false => simp [Scan.ends, Scan.next, hregion, hgt, hbreak, hequals, hquote, hsame]

theorem Follows.step_quoted (h : Follows scan body reading) {quote : Char}
    (hregion : scan.region = .quoted quote) (guard : Bool) (rest : List Char) :
    reading.step guard c rest =
      if scan.ends (uniform guard) c rest then (reading.feed c).finish
      else { reading.feed c with region := (scan.next c).region } := by
  have hsame := h.feed_withRegion_self c
  have hquote : isQuote quote = true := by simpa [hregion, Region.Sound] using h.sound
  rw [feed_of_not_line_break hbreak, hregion] at hsame
  rw [feed_of_not_line_break hbreak, step, h.region_eq, hregion]
  cases hgt : c == '>' with
  | true =>
      have hne : (c == quote) = false := by
        rw [beq_eq_false_iff_ne]
        rintro rfl
        rw [beq_iff_eq.1 hgt] at hquote
        exact absurd hquote (by decide)
      simp [Scan.ends, Scan.closes, Scan.next, hregion, hgt, hbreak, hne, hsame]
  | false =>
      cases hend : c == quote with
      | true => simp [Scan.ends, Scan.next, hregion, hgt, hbreak, hend]
      | false => simp [Scan.ends, Scan.next, hregion, hgt, hbreak, hend, hsame]

theorem Follows.step_section (h : Follows scan body reading)
    (hregion : scan.region = .comment ∨ scan.region = .cdata) (guard : Bool) (rest : List Char) :
    reading.step guard c rest =
      if scan.ends (uniform guard) c rest then (reading.feed c).finish
      else { reading.feed c with region := (scan.next c).region } := by
  have hcloses := h.closesSection_push hregion
  have hsame := h.feed_withRegion_self c
  have hnext : (scan.next c).region = scan.region := by
    rcases hregion with hregion | hregion <;> simp [Scan.next, hregion]
  rw [hnext, hsame, feed_of_not_line_break hbreak, step, h.region_eq]
  cases hgt : c == '>' with
  | true =>
      rw [beq_iff_eq.1 hgt]
      rcases hregion with hregion | hregion
      · simp [Scan.ends, Scan.closes, hregion, hcloses, isLineBreak]
      · simp [Scan.ends, Scan.closes, hregion, hcloses, isLineBreak]
  | false =>
      rcases hregion with hregion | hregion
      · simp [Scan.ends, hregion, hgt, hbreak]
      · simp [Scan.ends, hregion, hgt, hbreak]

end Step

/-- The reader ends the tag where the automaton does, and goes on with it elsewhere. -/
theorem Follows.step_eq {scan : Scan} {body : List Char} {reading : Reading}
    (h : Follows scan body reading) (guard : Bool) (c : Char) (rest : List Char) :
    reading.step guard c rest =
      if scan.ends (uniform guard) c rest then (reading.feed c).finish
      else { reading.feed c with region := (scan.next c).region } := by
  cases hbreak : isLineBreak c with
  | true =>
      have hgt : c ≠ '>' := ne_of_isBlank (isBlank_of_isLineBreak hbreak) (by decide)
      rw [h.step_line_break hbreak, if_neg (by simp [Scan.ends, hgt])]
  | false =>
      have hne := h.region_ne
      cases hregion : scan.region with
      | text => exact absurd hregion hne
      | tag => exact h.step_tag hbreak hregion guard rest
      | quoted quote => exact h.step_quoted hbreak hregion guard rest
      | comment => exact h.step_section hbreak (Or.inl hregion) guard rest
      | cdata => exact h.step_section hbreak (Or.inr hregion) guard rest

/-! ## Whole texts -/

/-- The reader between two fragments. -/
def idle (finished : List (List Char)) : Reading := ⟨.text, [], false, finished⟩

theorem finish_eq (reading : Reading) :
    reading.finish =
      idle (if (trim reading.held.reverse).isEmpty then reading.finished
        else trim reading.held.reverse :: reading.finished) := rfl

/-- From a tag the reader reads up to the end that the automaton finds, or it stays in the tag. -/
theorem Follows.run_eq {scan : Scan} {body : List Char} {reading : Reading}
    (h : Follows scan body reading) (guard : Bool) (text : List Char) :
    run guard reading text =
      match Scan.cut? (uniform guard) scan text with
      | some (inside, after) => run guard (inside.foldl feed reading).finish after
      | none => { text.foldl feed reading with region := (scan.after text).region } := by
  induction text generalizing scan body reading with
  | nil =>
      have hregion : { reading with region := scan.region } = reading := by rw [← h.region_eq]
      exact hregion.symm
  | cons c rest ih =>
      rw [run_cons, h.step_eq]
      cases hends : scan.ends (uniform guard) c rest with
      | true =>
          rw [Scan.cut?_cons_of_ends hends]
          rfl
      | false =>
          obtain ⟨body', hnext⟩ := h.feed_next c
          rw [Scan.cut?_cons_of_not_ends hends, if_neg (by simp), ih hnext]
          cases Scan.cut? (uniform guard) (scan.next c) rest with
          | none =>
              simp only [Option.map_none, List.foldl_cons, foldl_feed_withRegion]
              rfl
          | some cut =>
              simp only [Option.map_some, List.foldl_cons, foldl_feed_withRegion,
                finish_withRegion]

/-- Behind the opener the reader follows the automaton. -/
theorem follows_opener {region : Region} (hne : region ≠ .text) (hsound : region.Sound)
    (finished : List (List Char)) :
    Follows (.start region) [] (region.opener.foldl feed ⟨region, [], false, finished⟩) := by
  have hheld : region.opener.foldl feed ⟨region, [], false, finished⟩ =
      ⟨region, region.opener.reverse, false, finished⟩ := by
    cases region <;> rfl
  rw [hheld]
  exact ⟨rfl, hne, hsound, rfl, rfl, rfl, by simp⟩

/-- In a section everything but a `>` is fed. -/
theorem run_section {reading : Reading}
    (hregion : reading.region = .comment ∨ reading.region = .cdata) {front : List Char}
    (hfront : '>' ∉ front) (guard : Bool) (rest : List Char) :
    run guard reading (front ++ rest) = run guard (front.foldl feed reading) rest := by
  induction front generalizing reading with
  | nil => rfl
  | cons c front ih =>
      rw [List.mem_cons, not_or] at hfront
      have hstep : ∀ more, reading.step guard c more = reading.feed c := by
        intro more
        rcases hregion with hregion | hregion
        · simp [step, hregion, Ne.symm hfront.1, feed]
        · simp [step, hregion, Ne.symm hfront.1, feed]
      rw [List.cons_append, run_cons, hstep, ih (by simpa using hregion) hfront.2]
      rfl

/-- A `<` starts a tag, which is read from its opener on. -/
theorem run_opener {region : Region} {text : List Char}
    (hregion : Region.ofTagStart (region.opener ++ text) = region) (guard : Bool)
    (finished : List (List Char)) :
    run guard (idle finished) (region.opener ++ text) =
      run guard (region.opener.foldl feed ⟨region, [], false, finished⟩) text := by
  obtain ⟨front, hopener, hfront⟩ : ∃ front, region.opener = '<' :: front ∧ '>' ∉ front ∧
      (front = [] ∨ region = .comment ∨ region = .cdata) := by
    cases region with
    | comment => exact ⟨commentBodyOpen, rfl, by decide, by simp⟩
    | cdata => exact ⟨cdataBodyOpen, rfl, by decide, by simp⟩
    | _ => exact ⟨[], rfl, by simp, by simp⟩
  have hfirst : ∀ rest, (idle finished).step guard '<' rest =
      ⟨.ofTagStart ('<' :: rest), ['<'], false, finished⟩ := fun rest => rfl
  rw [hopener] at hregion ⊢
  rw [List.cons_append, run_cons, hfirst, ← List.cons_append, hregion]
  rcases hfront with ⟨hfront, rfl | hsection⟩
  · rfl
  · exact run_section hsection hfront guard text

/-- A tag that the reader has read is laid out on one line. -/
theorem finish_foldl_feed {tag : List Char} (htag : meetsTag tag = true) (region : Region)
    (finished : List (List Char)) :
    (tag.foldl feed ⟨region, [], false, finished⟩).finish =
      idle ((layOut tag).reverse ++ finished) := by
  have hheld := @held_foldl_feed ⟨region, [], false, finished⟩ tag (by simp)
  rw [List.append_nil] at hheld
  have htrim : trim (foldRuns tag) = onOneLine tag := by
    obtain ⟨rest, rfl⟩ := exists_of_meetsTag htag
    have hlt : isBlank '<' = false := by decide
    rw [trim, foldRuns_cons hlt, trimStart_cons hlt, ← foldRuns_cons hlt, onOneLine]
  rw [finish_eq, hheld, List.reverse_reverse, htrim, foldl_feed_finished, layOut, if_pos htag]
  split <;> simp_all

section Tag

variable {guard : Bool} {source tag after : List Char} (hsource : meetsTag source = true)

include hsource

/-- A text that starts with a tag is read as the tag and the text behind it. -/
theorem run_tag (h : cutTag? (uniform guard) source = some (tag, after))
    (finished : List (List Char)) :
    run guard (idle finished) source =
      run guard (idle ((layOut tag).reverse ++ finished)) after := by
  obtain ⟨region, text, rfl, hregion, hsound⟩ := exists_opener hsource
  have hne : region ≠ .text := hregion ▸ Region.ofTagStart_ne_text _
  obtain ⟨inside, rfl, hcut⟩ := exists_cut?_of_cutTag?_opener hregion h
  rw [run_opener hregion, (follows_opener hne hsound finished).run_eq, hcut]
  simp only
  rw [← List.foldl_append, finish_foldl_feed (meetsTag_opener_append region inside)]

/-- A tag without end is read up to the end of the text, and not left. -/
theorem run_open (h : cutTag? (uniform guard) source = none) (finished : List (List Char)) :
    (run guard (idle finished) source).region ≠ .text ∧
      (run guard (idle finished) source).finish = idle ((layOut source).reverse ++ finished) := by
  obtain ⟨region, text, rfl, hregion, hsound⟩ := exists_opener hsource
  have hne : region ≠ .text := hregion ▸ Region.ofTagStart_ne_text _
  rw [cutTag?_opener_eq_none_iff hregion] at h
  rw [run_opener hregion, (follows_opener hne hsound finished).run_eq, h]
  constructor
  · exact after_region_ne_text hne text
  · rw [finish_withRegion, ← List.foldl_append, finish_foldl_feed hsource]

end Tag

/-- Character data is held as it is read. -/
theorem run_data {data : List Char} (hdata : ∀ c ∈ data, isData c = true) (guard : Bool)
    (held rest : List Char) (finished : List (List Char)) :
    run guard ⟨.text, held, false, finished⟩ (data ++ rest) =
      run guard ⟨.text, data.reverse ++ held, false, finished⟩ rest := by
  induction data generalizing held with
  | nil => rfl
  | cons c data ih =>
      obtain ⟨hc, hdata⟩ := List.forall_mem_cons.1 hdata
      have hplain : c ≠ '<' ∧ c ≠ '\n' := by simpa [isData] using hc
      have hstep : ∀ more, step guard ⟨.text, held, false, finished⟩ c more =
          ⟨.text, c :: held, false, finished⟩ := by
        intro more
        simp [step, hplain]
      rw [List.cons_append, run_cons, hstep, ih hdata]
      simp

/-- A tag and a line feed finish what is held. -/
theorem run_finish {reading : Reading} (hregion : reading.region = .text) (guard : Bool) {c : Char}
    (hc : isData c = false) (rest : List Char) :
    run guard reading (c :: rest) = run guard reading.finish (c :: rest) := by
  have hstep : reading.step guard c rest = reading.finish.step guard c rest := by
    rw [finish_eq]
    simp only [isData, Bool.and_eq_false_iff, bne_eq_false_iff_eq] at hc
    rcases hc with rfl | rfl
    · simp [step, hregion, finish_eq, idle]
    · simp [step, hregion, finish_eq, idle]
  rw [run_cons, run_cons, hstep]

/-- A tag, a line feed and the end finish what is held. -/
theorem finish_run {reading : Reading} (hregion : reading.region = .text) (guard : Bool)
    {rest : List Char} (hrest : ∀ c ∈ rest.head?, isData c = false) :
    (run guard reading rest).finish = (run guard reading.finish rest).finish := by
  cases rest with
  | nil => rfl
  | cons c rest => rw [run_finish hregion guard (hrest c (by simp))]

/-- A line of character data is finished as it is laid out. -/
theorem finish_data {data : List Char} (hdata : ∀ c ∈ data, isData c = true)
    (finished : List (List Char)) :
    finish ⟨.text, data.reverse ++ [], false, finished⟩ =
      idle ((layOut data).reverse ++ finished) := by
  rw [finish_eq, List.append_nil, List.reverse_reverse, layOut, meetsTag_of_isData hdata]
  split <;> simp_all

/-- The reader lays out the pieces one after another. -/
theorem run_eq (guard : Bool) (source : List Char) (finished : List (List Char)) :
    (run guard (idle finished) source).finish =
      idle (((pieces (uniform guard) source).flatMap layOut).reverse ++ finished) := by
  induction source using pieces_induction (uniform guard) generalizing finished with
  | nil => rw [pieces_nil]; rfl
  | tag source tag after hsource h ih =>
      rw [run_tag hsource h, pieces_tag hsource h]
      simp only [ih, List.flatMap_cons, List.reverse_append, List.append_assoc]
  | unended source hsource h =>
      rw [(run_open hsource h finished).2, pieces_open hsource h]
      simp
  | line_feed rest ih =>
      have hstep : (idle finished).step guard '\n' rest = idle finished := rfl
      rw [run_cons, hstep, ih, pieces_break, List.flatMap_cons, layOut_break, List.nil_append]
  | data data rest hne hdata hrest ih =>
      rw [idle, run_data hdata, finish_run rfl guard hrest, finish_data hdata, ih,
        pieces_data hne hdata hrest]
      simp

end Reading

/-- The fragments of a text are its pieces, laid out. -/
theorem fragments_eq (guard : Bool) (source : List Char) :
    fragments guard source = (pieces (uniform guard) source).flatMap layOut := by
  have hstart : Reading.start = Reading.idle [] := rfl
  rw [fragments, hstart, Reading.run_eq, List.append_nil]
  exact List.reverse_reverse _

end Markup

end PrettyMarkup
