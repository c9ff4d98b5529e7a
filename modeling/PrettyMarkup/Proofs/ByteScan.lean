import PrettyMarkup.Markup.CheckedLexer
import PrettyMarkup.Proofs.Bytes
import PrettyMarkup.Proofs.StartTags
import PrettyMarkup.Proofs.TagEnds

/-!
# The end of a tag by its bytes

The end of a tag may be looked for byte by byte.  The search never looks behind the end of the body
or cuts it inside a character, and stops where the search by characters does: it asks for characters
of one byte only, so that it goes over the bytes of every other character at once.

## Implementation notes

There is one law for a character in each search (`plainEnd?_cons`, `findM?_endsCdata?_cons`), with
the text in front of the character left open; the runs are inductions on the text left.
-/

namespace PrettyMarkup

namespace Markup

open Text

theorem utf8Size_of_isQuote {c : Char} (h : isQuote c = true) : c.utf8Size = 1 := by
  simp only [isQuote, Bool.or_eq_true, beq_iff_eq] at h
  rcases h with rfl | rfl <;> decide

namespace Checked

variable {guard : Bool}

/-- What stands behind a character of one byte is asked of the byte behind its own. -/
theorem splitsAt_bytesOf {c : Char} (hc : c.utf8Size = 1) (front rest : List Char) :
    splitsAt guard (bytesOf (front ++ c :: rest)) (byteSize front) = splitsLiteral guard rest := by
  have hcat : bytesOf (front ++ c :: rest) = bytesOf (front ++ [c]) ++ bytesOf rest := by simp
  have hsize : (bytesOf (front ++ [c])).length = byteSize front + 1 := by simp [hc]
  have hget : (bytesOf (front ++ c :: rest))[byteSize front + 1]? = (bytesOf rest).head? := by
    rw [hcat, ← hsize, List.getElem?_append_right (Nat.le_refl _), Nat.sub_self,
      List.head?_eq_getElem?]
  rw [splitsAt, splitsLiteral, meetsTag, hget]
  congr 1
  rw [Bool.eq_iff_iff, beq_iff_eq, beq_iff_eq]
  exact head?_bytesOf (by decide) rest

/-! ## Quoted values -/

/-- The search goes over bytes that are none of a character of one byte. -/
theorem plainEnd?_append {opened : Option Char} (hopened : ∀ quote ∈ opened, quote.utf8Size = 1)
    {more : List UInt8} (hmore : ∀ x : Char, x.utf8Size = 1 → x.toUInt8 ∉ more)
    (bytes rest : List UInt8) (index : Nat) :
    plainEnd? guard bytes (opened.map Char.toUInt8) index (more ++ rest) =
      plainEnd? guard bytes (opened.map Char.toUInt8) (index + more.length) rest := by
  induction more generalizing index with
  | nil => rfl
  | cons byte more ih =>
      have hbyte : ∀ x : Char, x.utf8Size = 1 → (byte == x.toUInt8) = false := by
        intro x hx
        have hnot := hmore x hx
        rw [List.mem_cons, not_or] at hnot
        exact beq_eq_false_iff_ne.2 (Ne.symm hnot.1)
      have hrest := ih (fun x hx => mt (List.mem_cons_of_mem byte) (hmore x hx)) (index + 1)
      rw [List.length_cons, ← Nat.add_assoc, Nat.add_right_comm, ← hrest]
      cases opened with
      | none =>
          rw [Option.map_none, List.cons_append, plainEnd?, hbyte '>' (by decide),
            hbyte '\x22' (by decide), hbyte '\x27' (by decide)]
          rfl
      | some quote =>
          rw [Option.map_some, List.cons_append, plainEnd?, hbyte quote (hopened quote rfl),
            hbyte '>' (by decide)]
          rfl

/-- The quote that is open is one byte. -/
theorem utf8Size_of_opened {front : List Char} {quote : Char}
    (h : (QuoteState.outside.after front).opened = some quote) : quote.utf8Size = 1 := by
  obtain ⟨_, _, _, _, hopen, _⟩ := endsInValue_iff.2 h
  exact utf8Size_of_isQuote hopen.1

/-- The byte in front of a place is an equals sign where the character in front is one. -/
theorem getElem?_bytesOf_pred {front : List Char} (hne : front ≠ []) (rest : List Char) :
    ∃ before, (bytesOf (front ++ rest))[byteSize front - 1]? = some before ∧
      (before == '='.toUInt8) = (QuoteState.outside.after front).afterEquals := by
  have hpos : 0 < byteSize front := Nat.pos_of_ne_zero (mt byteSize_eq_zero_iff.1 hne)
  have hget : (bytesOf (front ++ rest))[byteSize front - 1]? = (bytesOf front).getLast? := by
    have hlt : byteSize front - 1 < (bytesOf front).length := by
      rw [length_bytesOf]
      omega
    rw [bytesOf_append, List.getElem?_append_left hlt, List.getLast?_eq_getElem?, length_bytesOf]
  have hsome : (bytesOf front).getLast? ≠ none := by
    rw [Ne, List.getLast?_eq_none_iff, ← List.length_eq_zero_iff, length_bytesOf]
    exact Nat.ne_of_gt hpos
  obtain ⟨before, hbefore⟩ := Option.ne_none_iff_exists'.1 hsome
  have hlast := getLast?_bytesOf (x := '=') (by decide) front
  refine ⟨before, hget.trans hbefore, ?_⟩
  rw [QuoteState.afterEquals_after, Bool.eq_iff_iff, beq_iff_eq, beq_iff_eq, ← hlast, hbefore,
    Option.some_inj]

/-- The first byte of a character takes the search by bytes on as the character takes the search by
characters. -/
theorem plainEnd?_first (front : List Char) (c : Char) (rest : List Char) {first : UInt8}
    (hfirst : ∀ x : Char, x.utf8Size = 1 → (first = x.toUInt8 ↔ c = x)) (behind : List UInt8) :
    plainEnd? guard (bytesOf (front ++ c :: rest))
        ((QuoteState.outside.after front).opened.map Char.toUInt8) (byteSize front)
        (first :: behind) =
      if c == '>' && ((QuoteState.outside.after front).opened.isNone || splitsLiteral guard rest)
      then some (some (byteSize front))
      else
        plainEnd? guard (bytesOf (front ++ c :: rest))
          ((QuoteState.outside.after (front ++ [c])).opened.map Char.toUInt8) (byteSize front + 1)
          behind := by
  have hbyte : ∀ x : Char, x.utf8Size = 1 → (first == x.toUInt8) = (c == x) := by
    intro x hx
    rw [Bool.eq_iff_iff, beq_iff_eq, beq_iff_eq]
    exact hfirst x hx
  cases hopened : (QuoteState.outside.after front).opened with
  | some quote =>
      have hquote := utf8Size_of_opened hopened
      rw [Option.map_some, plainEnd?, hbyte quote hquote, hbyte '>' (by decide),
        QuoteState.opened_concat_of_some hopened, Option.isNone_some, Bool.false_or]
      by_cases hc : c = quote
      -- What closes a value is a quote, so it is not the `>` of a tag.
      · obtain ⟨_, _, _, _, hopen, _⟩ := endsInValue_iff.2 hopened
        have hgt : (c == '>') = false :=
          beq_eq_false_iff_ne.2 (hc ▸ ne_of_isQuote hopen.1 (by decide))
        rw [if_pos (beq_iff_eq.2 hc), if_pos hc, hgt]
        rfl
      · rw [if_neg (mt beq_iff_eq.1 hc), if_neg hc]
        by_cases hgt : c = '>'
        · rw [hgt, splitsAt_bytesOf (by decide)]
          rfl
        · rw [beq_eq_false_iff_ne.2 hgt]
          rfl
  | none =>
      rw [Option.map_none, plainEnd?, hbyte '>' (by decide), hbyte '\x22' (by decide),
        hbyte '\x27' (by decide), ← isQuote, QuoteState.opened_concat_of_none hopened,
        Option.isNone_none, Bool.true_or, Bool.and_true]
      by_cases hgt : c = '>'
      · rw [if_pos (beq_iff_eq.2 hgt), if_pos (beq_iff_eq.2 hgt)]
      · rw [if_neg (mt beq_iff_eq.1 hgt), if_neg (mt beq_iff_eq.1 hgt)]
        by_cases hquote : isQuote c = true ∧ 0 < byteSize front
        · have hne : front ≠ [] := by
            rintro rfl
            exact Nat.lt_irrefl 0 hquote.2
          obtain ⟨before, hbefore, hequals⟩ := getElem?_bytesOf_pred hne (c :: rest)
          have hc : first = c.toUInt8 := (hfirst c (utf8Size_of_isQuote hquote.1)).2 rfl
          rw [if_pos (by simpa using hquote), hbefore, Option.bind_eq_bind, Option.bind_some,
            hequals, QuoteState.afterEquals_after, hc]
          by_cases hlast : front.getLast? = some '='
          · rw [if_pos (beq_iff_eq.2 hlast), if_pos ⟨hquote.1, hlast⟩]
            rfl
          · rw [if_neg (mt beq_iff_eq.1 hlast), if_neg fun hopen : Opens front c => hlast hopen.2]
            rfl
        · rw [if_neg (by simpa using hquote), if_neg]
          · rfl
          · rintro ⟨hc, hlast⟩
            have hne : front ≠ [] := by
              rintro rfl
              simp at hlast
            exact hquote ⟨hc, Nat.pos_of_ne_zero (mt byteSize_eq_zero_iff.1 hne)⟩

theorem plainEnd?_cons (front : List Char) (c : Char) (rest : List Char) :
    plainEnd? guard (bytesOf (front ++ c :: rest))
        ((QuoteState.outside.after front).opened.map Char.toUInt8) (byteSize front)
        (bytesOf (c :: rest)) =
      if c == '>' && ((QuoteState.outside.after front).opened.isNone || splitsLiteral guard rest)
      then some (some (byteSize front))
      else
        plainEnd? guard (bytesOf (front ++ c :: rest))
          ((QuoteState.outside.after (front ++ [c])).opened.map Char.toUInt8)
          (byteSize (front ++ [c])) (bytesOf rest) := by
  obtain ⟨first, more, hbytes, hfirst⟩ := exists_utf8EncodeChar c
  have hsize : byteSize (front ++ [c]) = byteSize front + 1 + more.length := by
    have hlength := congrArg List.length hbytes
    rw [String.length_utf8EncodeChar, List.length_cons] at hlength
    rw [byteSize_append, byteSize_cons, byteSize_nil, hlength]
    omega
  rw [bytesOf_cons, hbytes, List.cons_append,
    plainEnd?_first front c rest fun x hx => (hfirst x hx).1,
    plainEnd?_append (fun quote => utf8Size_of_opened) fun x hx => (hfirst x hx).2, hsize]

/-- Outside CDATA sections the search by bytes finds what the search by characters does. -/
theorem plainEnd?_eq (front text : List Char) :
    plainEnd? guard (bytesOf (front ++ text))
        ((QuoteState.outside.after front).opened.map Char.toUInt8) (byteSize front)
        (bytesOf text) =
      some ((findPlainEnd guard (QuoteState.outside.after front) text).map
        fun n => byteSize front + byteSize (text.take n)) := by
  induction text generalizing front with
  | nil =>
      cases h : (QuoteState.outside.after front).opened <;> simp [plainEnd?, findPlainEnd]
  | cons c text ih =>
      rw [plainEnd?_cons, findPlainEnd]
      split
      · simp
      · have hcat : front ++ c :: text = front ++ [c] ++ text := by simp
        rw [hcat, ih (front ++ [c]), ← QuoteState.after_concat, Option.map_map]
        simp [Function.comp_def, Nat.add_assoc]

/-! ## CDATA sections -/

/-- Whether a `>` behind `front` ends a CDATA section. -/
def closesCdata (guard : Bool) (front rest : List Char) : Bool :=
  cdataMarks.isSuffixOf front || splitsLiteral guard rest

theorem findM?_append_of_false {p : Nat → Option Bool} {passed : List Nat}
    (h : ∀ index ∈ passed, p index = some false) (rest : List Nat) :
    (passed ++ rest).findM? p = rest.findM? p := by
  induction passed with
  | nil => rfl
  | cons index passed ih =>
      obtain ⟨hindex, hpassed⟩ := List.forall_mem_cons.1 h
      rw [List.cons_append, List.findM?, hindex, ← ih hpassed]
      rfl

/-- A `>` is asked whether it ends the section, by the characters in front of it and behind it. -/
theorem endsCdata?_first (front : List Char) (c : Char) (rest : List Char) {first : UInt8}
    {more : List UInt8} (hbytes : String.utf8EncodeChar c = first :: more)
    (hfirst : first = '>'.toUInt8 ↔ c = '>') :
    endsCdata? guard (front ++ c :: rest) (bytesOf (front ++ c :: rest)) (byteSize front) =
      some (c == '>' && closesCdata guard front rest) := by
  have hget : (bytesOf (front ++ c :: rest))[byteSize front]? = some first := by
    rw [bytesOf_append, bytesOf_cons, hbytes, ← length_bytesOf,
      List.getElem?_append_right (Nat.le_refl _), Nat.sub_self]
    rfl
  rw [endsCdata?, hget, Option.bind_eq_bind, Option.bind_some]
  by_cases hgt : c = '>'
  · subst hgt
    have hslice : slice? 0 (byteSize front) (front ++ '>' :: rest) = some front := by
      simpa using slice?_append [] front ('>' :: rest)
    rw [if_pos (beq_iff_eq.2 (hfirst.2 rfl)), hslice, splitsAt_bytesOf (by decide)]
    rfl
  · rw [if_neg (mt beq_iff_eq.1 (mt hfirst.1 hgt)), beq_eq_false_iff_ne.2 hgt]
    rfl

/-- No byte behind the first one of a character ends the section. -/
theorem endsCdata?_more (front : List Char) (c : Char) (rest : List Char) {first : UInt8}
    {more : List UInt8} (hbytes : String.utf8EncodeChar c = first :: more)
    (hmore : '>'.toUInt8 ∉ more) {index : Nat}
    (hindex : index ∈ List.range' (byteSize front + 1) more.length) :
    endsCdata? guard (front ++ c :: rest) (bytesOf (front ++ c :: rest)) index = some false := by
  obtain ⟨hle, hlt⟩ := List.mem_range'_1.1 hindex
  obtain ⟨k, rfl⟩ := Nat.exists_eq_add_of_le hle
  have hk : k < more.length := by omega
  have hget : (bytesOf (front ++ c :: rest))[byteSize front + 1 + k]? = some more[k] := by
    have hcat : bytesOf (front ++ c :: rest) =
        (bytesOf front ++ [first]) ++ (more ++ bytesOf rest) := by
      rw [bytesOf_append, bytesOf_cons, hbytes]
      simp
    have hlength : (bytesOf front ++ [first]).length = byteSize front + 1 := by simp
    rw [hcat, List.getElem?_append_right (by omega), hlength, Nat.add_sub_cancel_left,
      List.getElem?_append_left hk, List.getElem?_eq_getElem hk]
  have hne : (more[k] == '>'.toUInt8) = false := by
    rw [beq_eq_false_iff_ne]
    exact fun heq => hmore (heq ▸ List.getElem_mem hk)
  rw [endsCdata?, hget, Option.bind_eq_bind, Option.bind_some, hne]
  rfl

theorem findM?_endsCdata?_cons (front : List Char) (c : Char) (rest : List Char) :
    (List.range' (byteSize front) (byteSize (c :: rest))).findM?
        (endsCdata? guard (front ++ c :: rest) (bytesOf (front ++ c :: rest))) =
      if c == '>' && closesCdata guard front rest then some (some (byteSize front))
      else
        (List.range' (byteSize (front ++ [c])) (byteSize rest)).findM?
          (endsCdata? guard (front ++ c :: rest) (bytesOf (front ++ c :: rest))) := by
  obtain ⟨first, more, hbytes, hfirst⟩ := exists_utf8EncodeChar c
  have hsize : c.utf8Size = more.length + 1 := by
    rw [← String.length_utf8EncodeChar, hbytes, List.length_cons]
  have hrange : List.range' (byteSize front) (byteSize (c :: rest)) =
      byteSize front :: (List.range' (byteSize front + 1) more.length ++
        List.range' (byteSize (front ++ [c])) (byteSize rest)) := by
    have hstart : byteSize (front ++ [c]) = byteSize front + 1 + more.length := by
      rw [byteSize_append, byteSize_cons, byteSize_nil, hsize]
      omega
    rw [hstart, List.range'_append_1, byteSize_cons, hsize, Nat.add_right_comm, List.range'_succ]
  have hhead := @endsCdata?_first guard front c rest _ _ hbytes (hfirst '>' (by decide)).1
  rw [hrange, List.findM?, hhead, Option.bind_eq_bind, Option.bind_some]
  cases c == '>' && closesCdata guard front rest with
  | true => rfl
  | false =>
      exact findM?_append_of_false
        (fun index => endsCdata?_more front c rest hbytes (hfirst '>' (by decide)).2) _

/-- In a CDATA section the search by bytes finds what the search by characters does. -/
theorem findM?_endsCdata?_eq (front text : List Char) :
    (List.range' (byteSize front) (byteSize text)).findM?
        (endsCdata? guard (front ++ text) (bytesOf (front ++ text))) =
      some ((firstEnd (closesCdata guard) front text).map
        fun n => byteSize front + byteSize (text.take n)) := by
  induction text generalizing front with
  | nil => rfl
  | cons c text ih =>
      rw [findM?_endsCdata?_cons, firstEnd]
      split
      · simp
      · have hcat : front ++ c :: text = front ++ [c] ++ text := by simp
        rw [hcat, ih (front ++ [c]), Option.map_map]
        simp [Function.comp_def, Nat.add_assoc]

/-! ## Tags -/

/-- The search by bytes goes wrong nowhere, and finds the end of the tag. -/
theorem tagEnd?_eq (guard : Bool) (body : List Char) :
    tagEnd? guard body = some (tagEndByte guard body) := by
  rw [tagEnd?, encode_ofList, tagEndByte, findTagEnd]
  dsimp only
  split
  · rename_i hopen
    obtain ⟨text, rfl⟩ := List.isPrefixOf_iff_prefix.1 hopen
    have hsize : (bytesOf (cdataBodyOpen ++ text)).length - byteSize cdataBodyOpen =
        byteSize text := by
      rw [length_bytesOf, byteSize_append, Nat.add_sub_cancel_left]
    have hsearch := findCdataEnd_eq_firstEnd guard cdataBodyOpen text
    have hmarks : cdataMarks.isSuffixOf cdataBodyOpen = false := by decide
    have hmark : [']'].isSuffixOf cdataBodyOpen = false := by decide
    rw [hmarks, hmark] at hsearch
    rw [hsize, findM?_endsCdata?_eq, List.drop_left, hsearch, Option.map_map]
    simp only [Function.comp_def, Nat.add_comm _ cdataBodyOpen.length, List.take_length_add_append,
      byteSize_append]
    rfl
  · have hsearch : plainEnd? guard (bytesOf body) none 0 (bytesOf body) = _ :=
      @plainEnd?_eq guard [] body
    rw [hsearch]
    simp

end Checked

end Markup

end PrettyMarkup
