import PrettyMarkup.Proofs.CheckedTags

/-!
# No place goes wrong

The lexer by places goes wrong on no text, and its tokens are those of the lexer by characters.  It
moves on from the end of a marker, so a tag or a comment must not end in front of that: a marker has
two bytes at most if it opens a tag, and the tag has its `<` and its `>`.

## Implementation notes

A marker lexer is known from what is asked of it (`IsMarkerLexer.unique`), so that one of them
stands for all.
-/

namespace PrettyMarkup

namespace Markup

open Text

/-! ## Markers -/

theorem Marker.length_written?_le {marker : Marker} {written : List Char}
    (h : marker.written? = some written) : written.length ≤ 4 := by
  rcases marker with _ | (_ | _ | _) | _ <;> cases h <;> decide

theorem Marker.written?_inj {a b : Marker} {written : List Char} (ha : a.written? = some written)
    (hb : b.written? = some written) : a = b := by
  rcases a with _ | (_ | _ | _) | _ <;> rcases b with _ | (_ | _ | _) | _ <;> cases ha <;>
    first | rfl | cases hb

/-- What is written at the front of a text that is no comment is the opener of its tag or a
shorter one. -/
theorem Marker.length_written?_le_of_not_comment {rest : List Char}
    (hcomment : commentBodyOpen.isPrefixOf rest = false) {marker : Marker} {written : List Char}
    (h : marker.written? = some written) (hbegins : written <+: '<' :: rest) :
    written.length ≤ 2 ∧ (TagForm.ofBody rest = .opening → written.length ≤ 1) := by
  rcases marker with _ | (_ | _ | _) | _ <;> cases h
  · rw [List.isPrefixOf_iff_prefix.2 (List.cons_prefix_cons.1 hbegins).2] at hcomment
    exact absurd hcomment (by simp)
  · exact ⟨by decide, fun _ => by decide⟩
  · obtain ⟨after, rfl⟩ := (List.cons_prefix_cons.1 hbegins).2
    exact ⟨by decide, fun hform => by simp [TagForm.ofBody] at hform⟩
  · obtain ⟨after, rfl⟩ := (List.cons_prefix_cons.1 hbegins).2
    exact ⟨by decide, fun hform => by simp [TagForm.ofBody] at hform⟩

theorem isMarkerLexer_markerAt : IsMarkerLexer markerAt where
  empty := rfl
  data c rest hc := by rw [markerAt, if_neg (by simpa using hc)]
  longest rest := by
    rw [markerAt, if_pos (by rfl)]
    cases hcomment : commentBodyOpen.isPrefixOf rest with
    | true =>
        refine ⟨.comment, commentOpen, rfl, rfl, ?_, fun other longer hlonger _ => ?_⟩
        · exact List.cons_prefix_cons.2 ⟨rfl, List.isPrefixOf_iff_prefix.1 hcomment⟩
        · exact Marker.length_written?_le hlonger
    | false =>
        have hlength := @Marker.length_written?_le_of_not_comment rest hcomment
        rcases TagForm.ofBody_cases rest with ⟨after, rfl, hform⟩ | ⟨after, rfl, hform⟩ | ⟨-, hform⟩
        · refine ⟨.tag .instruction, ['<', '?'], rfl, rfl, List.prefix_append _ _, ?_⟩
          exact fun other longer hlonger hbegins => (hlength hlonger hbegins).1
        · refine ⟨.tag .closing, ['<', '/'], rfl, rfl, List.prefix_append _ _, ?_⟩
          exact fun other longer hlonger hbegins => (hlength hlonger hbegins).1
        · refine ⟨.tag .opening, ['<'], by rw [hform]; rfl, rfl, List.prefix_append _ _, ?_⟩
          exact fun other longer hlonger hbegins => (hlength hlonger hbegins).2 hform

theorem IsMarkerLexer.unique {a b : List Char → Option (Marker × Nat)} (ha : IsMarkerLexer a)
    (hb : IsMarkerLexer b) (text : List Char) : a text = b text := by
  cases text with
  | nil => rw [ha.empty, hb.empty]
  | cons c rest =>
      by_cases hc : c = '<'
      · subst hc
        obtain ⟨marker, written, ha, hmarker, hbegins, hlongest⟩ := ha.longest rest
        obtain ⟨marker', written', hb, hmarker', hbegins', hlongest'⟩ := hb.longest rest
        have hlength : written.length = written'.length :=
          Nat.le_antisymm (hlongest' _ _ hmarker hbegins) (hlongest _ _ hmarker' hbegins')
        obtain rfl : written = written' := by
          rw [List.prefix_iff_eq_take.1 hbegins, List.prefix_iff_eq_take.1 hbegins', hlength]
        rw [ha, hb, Marker.written?_inj hmarker hmarker']
      · rw [ha.data c rest hc, hb.data c rest hc]

namespace Checked

/-! ## Whole texts -/

/-- The marker at the front of a text is followed by the step of the lexer by characters.  The place
behind the step is not in front of the end of the marker. -/
theorem marked?_eq (guard : Bool) {source : String} {start : Nat} {c : Char} {text : List Char}
    (h : StandsAt source start (c :: text))
    (hsize : start + byteSize (c :: text) = source.utf8ByteSize) :
    ∃ marker length found, markerAt (c :: text) = some (marker, length) ∧ 0 < length ∧
      marked? guard source marker start (start + length) =
        some (Lexeme.place start (lexStep guard c text).1, found) ∧
      (found = none → (lexStep guard c text).2 = []) ∧
      ∀ stop ∈ found, start + length ≤ stop ∧
        stop = start + byteSize (Lexeme.join (lexStep guard c text).1) := by
  by_cases hc : c = '<'
  · subst hc
    cases hcomment : commentBodyOpen.isPrefixOf text with
    | true =>
        obtain ⟨rest, rfl⟩ := List.isPrefixOf_iff_prefix.1 hcomment
        have hmarker : markerAt ('<' :: (commentBodyOpen ++ rest)) =
            some (.comment, byteSize commentOpen) := by
          rw [markerAt, if_pos (by rfl), if_pos hcomment]
        have hstep : lexStep guard '<' (commentBodyOpen ++ rest) = lexComment rest := by
          rw [lexStep, if_pos (by rfl), if_pos hcomment, List.drop_left]
        obtain ⟨found, hfound, hnone, hsome⟩ := comment?_eq h hsize
        rw [hstep]
        refine ⟨.comment, _, found, hmarker, by decide, hfound, hnone, ?_⟩
        intro stop hstop
        have hplace := hsome stop hstop
        have hjoin : Lexeme.join (lexComment rest).1 = commentOpen ++ (splitComment rest).1 := by
          simp [lexComment, commentOpen]
        refine ⟨?_, by rw [hplace, hjoin]⟩
        rw [hplace, byteSize_append]
        omega
    | false =>
        have hstep : lexStep guard '<' text =
            (⟨.bracketOpen, ['<']⟩ :: (lexTagBody guard text).1, (lexTagBody guard text).2) := by
          rw [lexStep, if_pos (by rfl), hcomment, if_neg (by simp)]
        obtain ⟨length, hmarker, hpos, hle⟩ : ∃ length,
            markerAt ('<' :: text) = some (.tag (TagForm.ofBody text), length) ∧
              0 < length ∧ length ≤ 2 := by
          rw [markerAt, if_pos (by rfl), hcomment, if_neg (by simp)]
          cases TagForm.ofBody text with
          | opening => exact ⟨1, rfl, by omega, by omega⟩
          | closing => exact ⟨2, rfl, by omega, by omega⟩
          | instruction => exact ⟨2, rfl, by omega, by omega⟩
        have htag := tag?_eq guard h hsize
        rw [hstep]
        refine ⟨_, length, _, hmarker, hpos, htag, ?_, ?_⟩ <;> rw [tagEndByte, lexTagBody]
        · cases findTagEnd guard text <;> simp
        · intro stop hstop
          obtain ⟨size, hsize, rfl⟩ := Option.map_eq_some_iff.1 hstop
          obtain ⟨n, hn, rfl⟩ := Option.map_eq_some_iff.1 hsize
          have hlt : byteSize ['<'] = 1 := by decide
          have hgt : byteSize ['>'] = 1 := by decide
          rw [hn, Lexeme.join_cons, join_endedBody, byteSize_append, byteSize_append, hlt, hgt]
          -- The marker has two bytes at most, and `<` and `>` are as many.
          omega
  · have hmarker : markerAt (c :: text) =
        some (.data, byteSize (c :: text.takeWhile (· != '<'))) := by
      rw [markerAt, if_neg (by simpa using hc)]
    have hstep : lexStep guard c text =
        ([⟨.text, c :: text.takeWhile (· != '<')⟩], text.dropWhile (· != '<')) := by
      rw [lexStep, if_neg (by simpa using hc)]
    have hcut := cons_takeWhile_append_dropWhile (· != '<') c text
    rw [← hcut] at h
    have hpushed := h.left.push?_eq .text
    rw [ofChars_of_ne_nil (by simp)] at hpushed
    rw [hstep]
    refine ⟨.data, _, _, hmarker, ?_, by rw [marked?, hpushed]; rfl, by simp, ?_⟩
    · exact Nat.pos_of_ne_zero (mt byteSize_eq_zero_iff.1 (by simp))
    · simp

/-- From every place the lexer goes through the text left, and on. -/
theorem tokensFrom?_eq (guard : Bool) {source : String} {start : Nat} {text : List Char}
    (h : StandsAt source start text) (hsize : start + byteSize text = source.utf8ByteSize) :
    tokensFrom? markerAt guard source start = some (Lexeme.place start (lexemes guard text)) := by
  have hslice : slice? start source.utf8ByteSize source.toList = some text := by
    rw [← hsize]
    exact h.slice?_eq
  fun_induction lexemes guard text generalizing start with
  | case1 =>
      rw [tokensFrom?, hslice]
      rfl
  | case2 c rest ih =>
      obtain ⟨marker, length, found, hmarker, hpos, hmarked, hnone, hsome⟩ :=
        marked?_eq guard h hsize
      have hcut := join_lexStep guard c rest
      rw [tokensFrom?, hslice, Option.bind_eq_bind, Option.bind_some, hmarker]
      dsimp only
      rw [hmarked, Option.bind_eq_bind, Option.bind_some]
      dsimp only
      cases found with
      | none =>
          dsimp only
          rw [hnone rfl, lexemes_nil, List.append_nil]
          rfl
      | some stop =>
          -- The lexer moves on from the end of the marker, to where the step has ended.
          obtain ⟨hle, hstop⟩ := hsome stop rfl
          rw [← hcut] at h
          rw [← hcut, byteSize_append, ← Nat.add_assoc, ← hstop] at hsize
          have hbehind := h.right
          rw [← hstop] at hbehind
          have hrest := ih hbehind hsize (hsize ▸ hbehind.slice?_eq)
          have hplace : start + length + (stop - (start + length)) = stop := by omega
          have hbump : bump? source (start + length) (stop - (start + length)) = some stop := by
            have hmoved := StandsAt.bump?_eq (hplace.symm ▸ hbehind)
            rwa [hplace] at hmoved
          dsimp only
          rw [sub?, if_pos hle, Option.bind_eq_bind, Option.bind_some, hbump, Option.bind_some,
            if_pos ⟨by omega, by omega⟩, hrest, Lexeme.place_append, ← hstop]
          rfl

end Checked

open Checked

/-- On no text a place goes wrong or a loop stands still, whatever lexer gives the markers: the
lexer by places gives the tokens of the text.  From any place of the text, reached or not, what a
marker opens is lexed; the place behind it is not in front of the end of the marker, and is one of
the text.  From any place in a tag the gap or the attribute there is lexed, and has bytes.  The end
of a tag is looked for in any body. -/
theorem tokensFrom?_eq_tokenize {next : List Char → Option (Marker × Nat)}
    (hnext : IsMarkerLexer next) (guard : Bool) (source : String) :
    tokensFrom? next guard source 0 = some (tokenize guard source) ∧
    (∀ place rest marker length,
      slice? place source.utf8ByteSize source.toList = some rest →
      next rest = some (marker, length) →
      ∃ tokens found, marked? guard source marker place (place + length) = some (tokens, found) ∧
        0 < length ∧ ∀ stop ∈ found, place + length ≤ stop ∧ stop ≤ source.utf8ByteSize ∧
          (⟨stop⟩ : String.Pos.Raw).IsValid source) ∧
    (∀ place stop text, slice? place stop source.toList = some text → text ≠ [] →
      ∃ tokens length, gapOrAttribute? guard source place text = some (tokens, length) ∧
        0 < length ∧ place + length ≤ stop ∧
          (⟨place + length⟩ : String.Pos.Raw).IsValid source) ∧
    ∀ body, tagEnd? guard body = some (tagEndByte guard body) := by
  obtain rfl : next = markerAt := funext (hnext.unique isMarkerLexer_markerAt)
  refine ⟨?_, ?_, ?_, tagEnd?_eq guard⟩
  · have hstands : StandsAt source 0 source.toList := ⟨[], [], by simp, rfl⟩
    have hsize := utf8ByteSize_ofList source.toList
    rw [String.ofList_toList] at hsize
    exact tokensFrom?_eq guard hstands (by rw [hsize, Nat.zero_add])
  · intro place rest marker length hslice hmarker
    obtain ⟨hstands, hsize⟩ := StandsAt.of_slice?_eq_some hslice
    cases rest with
    | nil => simp [markerAt] at hmarker
    | cons c text =>
        obtain ⟨marker', length', found, hmarker', hpos, hmarked, -, hsome⟩ :=
          marked?_eq guard hstands hsize
        rw [hmarker, Option.some_inj, Prod.mk.injEq] at hmarker'
        obtain ⟨rfl, rfl⟩ := hmarker'
        refine ⟨_, found, hmarked, hpos, fun stop hstop => ?_⟩
        obtain ⟨hle, hplace⟩ := hsome stop hstop
        rw [← join_lexStep guard c text] at hstands
        have hbehind := hstands.right
        rw [← hplace] at hbehind
        exact ⟨hle, Nat.le_trans (Nat.le_add_right _ _) hbehind.le_size, hbehind.isValid⟩
  · intro place stop text hslice hne
    obtain ⟨hstands, rfl⟩ := StandsAt.of_slice?_eq_some hslice
    obtain ⟨taken, rest, lexemes, rfl, htaken, -, -, hstep⟩ := gapOrAttribute?_eq guard hne
    refine ⟨_, _, hstep source place hstands, ?_, ?_, hstands.right.isValid⟩
    · exact Nat.pos_of_ne_zero (mt byteSize_eq_zero_iff.1 htaken)
    · rw [byteSize_append, ← Nat.add_assoc]
      exact Nat.le_add_right _ _

/-- A closing tag behind characters of two bytes: its marker ends in front of the end of the tag. -/
theorem tokensFrom?_eq_tokenize_closing :
    tokensFrom? markerAt true "é<a>é</é>" 0 = some (tokenize true "é<a>é</é>") ∧
      ∃ tokens found, marked? true "é<a>é</é>" (.tag .closing) 7 (7 + 2) = some (tokens, found) ∧
        0 < 2 ∧ ∀ stop ∈ found, 7 + 2 ≤ stop ∧ stop ≤ "é<a>é</é>".utf8ByteSize ∧
          (⟨stop⟩ : String.Pos.Raw).IsValid "é<a>é</é>" := by
  have h := tokensFrom?_eq_tokenize isMarkerLexer_markerAt true "é<a>é</é>"
  have hslice : slice? 7 "é<a>é</é>".utf8ByteSize "é<a>é</é>".toList = some "</é>".toList := by
    decide +kernel
  exact ⟨h.1, h.2.1 7 _ _ _ hslice (by decide)⟩

end Markup

end PrettyMarkup
