import PrettyMarkup.Proofs.ByteScan
import PrettyMarkup.Proofs.Grammar

/-!
# Tags by places

A tag and a comment are lexed by places as they are by characters, and no place goes wrong in them.
What a function of places is given is a text that stands at a place (`StandsAt`); cutting the text
says what stands at every other place that the function comes to.

## Implementation notes

There is one law for each function, with the text around left open.  Gaps and attributes are the one
loop: it goes on because what the text left starts with is a gap, or an attribute whose first
character is not blank (`gapOrAttribute?_eq`).
-/

namespace PrettyMarkup

namespace Markup

open Text

namespace Checked

/-! ## Cuts of a text -/

/-- A text stands at a place of another one. -/
def StandsAt (source : String) (start : Nat) (text : List Char) : Prop :=
  ∃ front rest, source.toList = front ++ text ++ rest ∧ byteSize front = start

namespace StandsAt

variable {source : String} {start : Nat} {text a b : List Char}

theorem left (h : StandsAt source start (a ++ b)) : StandsAt source start a := by
  obtain ⟨front, rest, hsource, hstart⟩ := h
  exact ⟨front, b ++ rest, by simp [hsource], hstart⟩

theorem right (h : StandsAt source start (a ++ b)) :
    StandsAt source (start + byteSize a) b := by
  obtain ⟨front, rest, hsource, hstart⟩ := h
  exact ⟨front ++ a, rest, by simp [hsource], by rw [byteSize_append, hstart]⟩

theorem slice?_eq (h : StandsAt source start text) :
    slice? start (start + byteSize text) source.toList = some text := by
  obtain ⟨front, rest, hsource, rfl⟩ := h
  rw [hsource, slice?_append]

/-- What stands at a place is pushed as it stands. -/
theorem push?_eq (h : StandsAt source start text) (kind : Kind) :
    push? source kind start (start + byteSize text) =
      some (Lexeme.place start (Lexeme.ofChars kind text)) := by
  cases text with
  | nil => simp [push?, Lexeme.ofChars, Lexeme.place]
  | cons c text =>
      have hpos := c.utf8Size_pos
      have hlt : start < start + byteSize (c :: text) := by
        rw [byteSize_cons]
        omega
      rw [push?, if_pos hlt, Token.ofRange?, h.slice?_eq]
      rfl

theorem isValid (h : StandsAt source start text) : (⟨start⟩ : String.Pos.Raw).IsValid source := by
  obtain ⟨front, rest, hsource, rfl⟩ := h
  have hvalid := isValid_byteSize front (text ++ rest)
  rwa [← List.append_assoc, ← hsource, String.ofList_toList] at hvalid

theorem le_size (h : StandsAt source start text) :
    start + byteSize text ≤ source.utf8ByteSize := by
  obtain ⟨front, rest, hsource, rfl⟩ := h
  have hsize := utf8ByteSize_ofList source.toList
  rw [String.ofList_toList, hsource, byteSize_append, byteSize_append] at hsize
  omega

/-- A place at which a text stands may be moved to. -/
theorem bump?_eq {size : Nat} (h : StandsAt source (start + size) text) :
    bump? source start size = some (start + size) := by
  obtain ⟨front, rest, hsource, hstart⟩ := h
  rw [bump?, ← hstart, hsource, List.append_assoc, splitAtByte_append]
  rfl

/-- What is cut out of a text stands between the places of the cuts. -/
theorem of_slice?_eq_some {stop : Nat} (h : slice? start stop source.toList = some text) :
    StandsAt source start text ∧ start + byteSize text = stop := by
  rw [slice?] at h
  split at h
  · rename_i hle
    obtain ⟨⟨before, after⟩, hbefore, h⟩ := Option.bind_eq_some_iff.1 h
    obtain ⟨⟨inside, rest⟩, hinside, h⟩ := Option.bind_eq_some_iff.1 h
    obtain ⟨hsource, hstart⟩ := splitAtByte_eq_some hbefore
    obtain ⟨hcat, hsize⟩ := splitAtByte_eq_some hinside
    obtain rfl : inside = text := Option.some.inj h
    exact ⟨⟨before, rest, by rw [← hsource, ← hcat, List.append_assoc], hstart⟩, by omega⟩
  · simp at h

end StandsAt

/-! ## Attributes -/

theorem findText?_equals (text : List Char) :
    findText? ['='] text =
      if text.dropWhile (· != '=') = [] then none
      else some (byteSize (text.takeWhile (· != '='))) := by
  induction text with
  | nil => rfl
  | cons c text ih =>
      rw [findText?, ih]
      by_cases hc : c = '='
      · simp [hc]
      · have hne : (c != '=') = true := by simpa using hc
        have hskip : ['='].isPrefixOf (c :: text) = false := isPrefixOf_eq_false (by simpa using hc) []
        rw [hskip, if_neg (by simp), List.takeWhile_cons_of_pos (p := (· != '=')) hne,
          List.dropWhile_cons_of_pos (p := (· != '=')) hne]
        split <;> simp

theorem ofChars_of_ne_nil {chars : List Char} (h : chars ≠ []) (kind : Kind) :
    Lexeme.ofChars kind chars = [⟨kind, chars⟩] := by
  rw [Lexeme.ofChars, if_neg (mt List.isEmpty_iff.1 h)]

/-- An attribute is cut at its first equals sign. -/
theorem attribute?_eq {source : String} {start : Nat} {written : List Char}
    (h : StandsAt source start written) (hne : written ≠ []) :
    attribute? source start written = some (Lexeme.place start (attributeLexemes written)) := by
  have hwhole := h.push?_eq .attributeName
  rw [ofChars_of_ne_nil hne] at hwhole
  rw [attribute?, findText?_equals, attributeLexemes_eq]
  have hcut := List.takeWhile_append_dropWhile (p := (· != '=')) (l := written)
  cases hdrop : written.dropWhile (· != '=') with
  | nil => simpa using hwhole
  | cons equals value =>
      obtain rfl := eq_of_dropWhile_equals hdrop
      rw [hdrop] at hcut
      generalize hname : written.takeWhile (· != '=') = name at hcut ⊢
      cases name with
      | nil => simpa using hwhole
      | cons c name =>
          have hpos : 0 < byteSize (c :: name) :=
            Nat.pos_of_ne_zero (mt byteSize_eq_zero_iff.1 (by simp))
          have hequals : byteSize ['='] = 1 := by decide
          have hcat : written = c :: name ++ (['='] ++ value) := hcut.symm
          have hstop : start + byteSize written =
              start + byteSize (c :: name) + 1 + byteSize value := by
            rw [hcat, byteSize_append, byteSize_append, hequals]
            omega
          rw [hcat] at h
          have hpushed := h.left.push?_eq .attributeName
          have hsign := h.right.left.push?_eq .equals
          have hvalue := h.right.right.push?_eq .attributeValue
          rw [hequals] at hsign hvalue
          rw [if_neg (by simp), if_neg (by simp), hstop]
          dsimp only
          rw [if_pos hpos, hpushed, hsign, hvalue]
          rfl

/-! ## Gaps and attributes -/

/-- A guarded attribute goes on as far by bytes as it does by characters. -/
theorem guardedLength_eq (state : QuoteState) (last : Option Char)
    (hlast : (last == some '=') = state.afterEquals) (text : List Char) :
    guardedLength state.opened last text =
      byteSize (text.take (attributeLength true state text)) := by
  induction text generalizing state last with
  | nil => rfl
  | cons c text ih =>
      have hrest := ih (state.next c) (some c) rfl
      rw [attributeLength]
      cases hopened : state.opened with
      | none =>
          rw [guardedLength]
          cases hc : isBlank c with
          | true => simp
          | false =>
              rw [QuoteState.opened_next_of_none hopened, ← hlast] at hrest
              rw [if_neg (by simp), hrest, if_neg (by simp), List.take_succ_cons, byteSize_cons]
      | some quote =>
          rw [QuoteState.opened_next_of_some hopened] at hrest
          rw [guardedLength, hrest, if_neg (by simp), List.take_succ_cons, byteSize_cons]

theorem segmentLength_eq (guard : Bool) (text : List Char) :
    segmentLength guard text =
      byteSize (text.take (attributeLength guard .outside text)) := by
  cases guard with
  | true => exact guardedLength_eq .outside none rfl text
  | false =>
      rw [segmentLength, if_neg (by simp)]
      generalize QuoteState.outside = state
      induction text generalizing state with
      | nil => rfl
      | cons c text ih =>
          rw [attributeLength]
          cases hc : isBlank c with
          | true => simp [hc]
          | false => simp [hc, ← ih (state.next c)]

/-- What the text left starts with, a gap or an attribute, is taken from it and placed. -/
theorem gapOrAttribute?_eq (guard : Bool) {text : List Char} (hne : text ≠ []) :
    ∃ taken rest front, text = taken ++ rest ∧ taken ≠ [] ∧ Lexeme.join front = taken ∧
      gapsAndAttributes guard text = front ++ gapsAndAttributes guard rest ∧
      ∀ source start, StandsAt source start text →
        gapOrAttribute? guard source start text =
          some (Lexeme.place start front, byteSize taken) := by
  obtain ⟨c, text, rfl⟩ := List.exists_cons_of_ne_nil hne
  have hgap : c :: text = (c :: text).takeWhile isBlank ++ trimStart (c :: text) :=
    (takeWhile_append_trimStart _).symm
  have hsub : sub? (byteSize (c :: text)) (byteSize (trimStart (c :: text))) =
      some (byteSize ((c :: text).takeWhile isBlank)) := by
    have hsize := congrArg byteSize hgap
    rw [byteSize_append] at hsize
    rw [sub?, if_pos (by omega), hsize, Nat.add_sub_cancel_right]
  -- A blank in front makes a gap with bytes; else the gap has none, and an attribute takes `c`.
  by_cases hc : isBlank c = true
  · have htake : (c :: text).takeWhile isBlank = c :: text.takeWhile isBlank := by simp [hc]
    have hdrop : trimStart (c :: text) = text.dropWhile isBlank := by simp [trimStart, hc]
    rw [htake, hdrop] at hgap
    rw [htake] at hsub
    refine ⟨_, _, [⟨.text, c :: text.takeWhile isBlank⟩], hgap, by simp, by simp,
      gapsAndAttributes_gap hc guard text, ?_⟩
    intro source start h
    have hpos : 0 < byteSize (c :: text.takeWhile isBlank) :=
      Nat.pos_of_ne_zero (mt byteSize_eq_zero_iff.1 (by simp))
    rw [hgap] at h
    have hpushed := h.left.push?_eq .text
    rw [gapOrAttribute?, hsub, Option.bind_eq_bind, Option.bind_some, if_pos hpos, hpushed]
    rfl
  · rw [Bool.not_eq_true] at hc
    have htake : (c :: text).takeWhile isBlank = [] := by simp [hc]
    rw [htake, byteSize_nil] at hsub
    refine ⟨_, _, _, (congrArg (c :: ·) (List.take_append_drop _ text)).symm, by simp,
      join_attributeLexemes _, gapsAndAttributes_attribute hc guard text, ?_⟩
    intro source start h
    generalize hn : attributeLength guard (QuoteState.outside.next c) text = n at h ⊢
    have hlength : segmentLength guard (c :: text) = byteSize (c :: text.take n) := by
      rw [segmentLength_eq, attributeLength, if_neg (by simp [hc]), hn, List.take_succ_cons]
    have hcut : c :: text = c :: text.take n ++ text.drop n := by simp
    have hslice : slice? 0 (byteSize (c :: text.take n)) (c :: text) = some (c :: text.take n) := by
      have happend := slice?_append [] (c :: text.take n) (text.drop n)
      rwa [List.nil_append, ← hcut, byteSize_nil, Nat.zero_add] at happend
    rw [hcut] at h
    rw [gapOrAttribute?, hsub, Option.bind_eq_bind, Option.bind_some, if_neg (by simp), hlength]
    dsimp only
    rw [hslice, Option.bind_eq_bind, Option.bind_some, attribute?_eq h.left (by simp)]
    rfl

/-- Gaps and attributes are taken one after another, and every one of them has bytes. -/
theorem attributesFrom?_eq {guard : Bool} {source : String} {start : Nat} (front text : List Char)
    (h : StandsAt source start (front ++ text)) :
    attributesFrom? guard source start (front ++ text) (byteSize front) =
      some (Lexeme.place (start + byteSize front) (gapsAndAttributes guard text)) := by
  -- The front grows by what is taken, so the place stays the size of a front.
  induction hlength : text.length using Nat.strong_induction_on generalizing front text with
  | h n ih =>
      rw [attributesFrom?]
      by_cases hne : text = []
      · subst hne
        simp [Lexeme.place]
      · obtain ⟨taken, rest, lexemes, rfl, htaken, hjoin, hlexemes, hstep⟩ :=
          gapOrAttribute?_eq guard hne
        have hpos : 0 < byteSize taken := Nat.pos_of_ne_zero (mt byteSize_eq_zero_iff.1 htaken)
        have hslice : slice? (byteSize front) (byteSize (front ++ (taken ++ rest)))
            (front ++ (taken ++ rest)) = some (taken ++ rest) := by
          simpa using slice?_append front (taken ++ rest) []
        have hshort : rest.length < n := by
          have hinked := List.length_pos_of_ne_nil htaken
          rw [← hlength, List.length_append]
          omega
        have hrest := ih rest.length hshort (front ++ taken) rest (by simpa using h) rfl
        rw [List.append_assoc, byteSize_append, ← Nat.add_assoc] at hrest
        rw [if_pos (by simp; omega), hslice, Option.bind_eq_bind, Option.bind_some,
          hstep source _ h.right]
        dsimp only [Option.bind_eq_bind, Option.bind_some]
        rw [if_pos hpos, hrest, hlexemes, Lexeme.place_append, hjoin]
        rfl

theorem openingBody?_eq {guard : Bool} {source : String} {start : Nat} {text : List Char}
    (h : StandsAt source start text) :
    openingBody? guard source start (start + byteSize text) =
      some (Lexeme.place start (nameAndAttributes guard text)) := by
  have hslice := h.slice?_eq
  rw [openingBody?, hslice, Option.bind_eq_bind, Option.bind_some, nameAndAttributes,
    Lexeme.place_append, Lexeme.join_ofChars]
  dsimp only
  have hcut := List.takeWhile_append_dropWhile (p := fun c => !isBlank c) (l := text)
  rw [← hcut] at h
  have hattributes := @attributesFrom?_eq guard source start _ _ h
  rw [hcut] at hattributes
  rw [h.left.push?_eq, hattributes]
  rfl

/-! ## Tags and comments -/

/-- What stands between two places and the bracket behind it are placed side by side. -/
theorem place_bracketClose {source : String} {start : Nat} {inside : List Lexeme}
    {bracket : List Char} (h : StandsAt source start (Lexeme.join inside ++ bracket))
    (hne : bracket ≠ []) :
    (do
      let bracket ← push? source .bracketClose (start + byteSize (Lexeme.join inside))
        (start + byteSize (Lexeme.join inside) + byteSize bracket)
      return Lexeme.place start inside ++ bracket) =
      some (Lexeme.place start (inside ++ [⟨.bracketClose, bracket⟩])) := by
  rw [h.right.push?_eq, ofChars_of_ne_nil hne, Lexeme.place_append]
  rfl

/-- A body and its bracket are cut as by characters; the `/` of the bracket is one byte. -/
theorem endedBody?_eq {guard : Bool} {source : String} {start : Nat} {body : List Char}
    (h : StandsAt source start (body ++ ['>'])) :
    endedBody? guard source (TagForm.ofBody body) start (start + byteSize body) =
      some (Lexeme.place start (endedBody guard body)) := by
  have hplain : ∀ kind : Kind,
      (do
        let inside ← push? source kind start (start + byteSize body)
        let bracket ← push? source .bracketClose (start + byteSize body) (start + byteSize body + 1)
        return inside ++ bracket) =
      some (Lexeme.place start (Lexeme.ofChars kind body ++ [⟨.bracketClose, ['>']⟩])) := by
    intro kind
    have hbracket := @place_bracketClose source start (Lexeme.ofChars kind body) ['>']
      (by simpa using h) (by simp)
    rw [Lexeme.join_ofChars] at hbracket
    rw [h.left.push?_eq]
    exact hbracket
  rw [endedBody]
  cases hform : TagForm.ofBody body with
  | opening =>
      dsimp only [endedBody?]
      rw [h.left.slice?_eq, Option.bind_eq_bind, Option.bind_some]
      by_cases hlast : (body.getLast? == some '/') = true
      · rw [if_pos hlast, if_pos hlast]
        obtain ⟨front, rfl⟩ := List.getLast?_eq_some_iff.1 (beq_iff_eq.1 hlast)
        have hslash : byteSize ['/'] = 1 := by decide
        have hboth : byteSize ['/', '>'] = 2 := by decide
        have hsub : sub? (start + byteSize (front ++ ['/'])) 1 = some (start + byteSize front) := by
          rw [sub?, byteSize_append, hslash, if_pos (by omega), ← Nat.add_assoc, Nat.add_sub_cancel]
        rw [List.append_assoc] at h
        have hbracket := @place_bracketClose source start (nameAndAttributes guard front) ['/', '>']
          (by rwa [join_nameAndAttributes]) (by simp)
        rw [join_nameAndAttributes, hboth] at hbracket
        rw [hsub, Option.bind_eq_bind, Option.bind_some, openingBody?_eq h.left,
          List.dropLast_concat, byteSize_append, hslash]
        exact hbracket
      · rw [if_neg hlast, if_neg hlast]
        have hbracket := @place_bracketClose source start (nameAndAttributes guard body) ['>']
          (by rwa [join_nameAndAttributes]) (by simp)
        rw [join_nameAndAttributes] at hbracket
        rw [Option.bind_eq_bind, Option.bind_some, openingBody?_eq h.left]
        exact hbracket
  | closing => exact hplain .tagCloseName
  | instruction => exact hplain .processingInstruction

/-- The form of a tag shows in its body as in the whole text behind its `<`. -/
theorem ofBody_append (body after : List Char) :
    TagForm.ofBody (body ++ '>' :: after) = TagForm.ofBody body := by
  cases body <;> rfl

/-- The tag at a place is cut as by characters, and behind it the text goes on. -/
theorem tag?_eq (guard : Bool) {source : String} {start : Nat} {text : List Char}
    (h : StandsAt source start ('<' :: text))
    (hsize : start + byteSize ('<' :: text) = source.utf8ByteSize) :
    tag? guard source (TagForm.ofBody text) start =
      some (Lexeme.place start (⟨.bracketOpen, ['<']⟩ :: (lexTagBody guard text).1),
        (tagEndByte guard text).map (start + 1 + · + 1)) := by
  have hlt : byteSize ['<'] = 1 := by decide
  have hcat : '<' :: text = ['<'] ++ text := rfl
  rw [hcat] at h hsize
  rw [byteSize_append, hlt, ← Nat.add_assoc] at hsize
  have hbracket := h.left.push?_eq .bracketOpen
  have hbody := h.right
  rw [hlt] at hbracket hbody
  have hslice : slice? (start + 1) source.utf8ByteSize source.toList = some text := by
    rw [← hsize]
    exact hbody.slice?_eq
  rw [tag?, lexTagBody, Lexeme.place]
  dsimp only
  rw [hslice, Option.bind_eq_bind, Option.bind_some, hbracket, Option.bind_eq_bind,
    Option.bind_some, tagEnd?_eq, Option.bind_eq_bind, Option.bind_some, tagEndByte]
  cases hend : findTagEnd guard text with
  | none =>
      dsimp only [Option.map_none]
      rw [← hsize, hbody.push?_eq]
      rfl
  | some n =>
      have hcut : text.take n ++ ['>'] ++ text.drop (n + 1) = text := by
        rw [List.append_assoc]
        exact take_append_drop_findTagEnd hend
      have hform := ofBody_append (text.take n) (text.drop (n + 1))
      rw [take_append_drop_findTagEnd hend] at hform
      rw [← hcut] at hbody
      dsimp only [Option.map_some]
      rw [hform, endedBody?_eq hbody.left]
      rfl

/-- A comment ends behind the first `-->`, or with the text. -/
theorem findText?_commentClose (rest : List Char) :
    (findText? commentClose rest = none ∧ (splitComment rest).2 = []) ∨
      ∃ offset, findText? commentClose rest = some offset ∧
        byteSize (splitComment rest).1 = offset + byteSize commentClose := by
  induction rest with
  | nil => exact Or.inl ⟨rfl, rfl⟩
  | cons c rest ih =>
      rw [findText?, splitComment]
      split
      · exact Or.inr ⟨0, rfl, (Nat.zero_add _).symm⟩
      · rcases ih with ⟨hnone, hrest⟩ | ⟨offset, hsome, hsize⟩
        · exact Or.inl ⟨by rw [hnone]; rfl, hrest⟩
        · refine Or.inr ⟨c.utf8Size + offset, by rw [hsome]; rfl, ?_⟩
          rw [byteSize_cons, hsize, Nat.add_assoc]

/-- The comment at a place is cut as by characters, and behind it the text goes on. -/
theorem comment?_eq {source : String} {start : Nat} {rest : List Char}
    (h : StandsAt source start (commentOpen ++ rest))
    (hsize : start + byteSize (commentOpen ++ rest) = source.utf8ByteSize) :
    ∃ found, comment? source start = some (Lexeme.place start (lexComment rest).1, found) ∧
      (found = none → (splitComment rest).2 = []) ∧
      ∀ stop ∈ found, stop = start + byteSize (commentOpen ++ (splitComment rest).1) := by
  have hslice : slice? (start + byteSize commentOpen) source.utf8ByteSize source.toList =
      some rest := by
    rw [← hsize, byteSize_append, ← Nat.add_assoc]
    exact h.right.slice?_eq
  have hcut := splitComment_append rest
  rw [← hcut, ← List.append_assoc] at h
  have hpushed := h.left.push?_eq .comment
  rw [ofChars_of_ne_nil (by simp [commentOpen])] at hpushed
  rw [comment?]
  dsimp only
  rw [hslice, Option.bind_eq_bind, Option.bind_some]
  rcases findText?_commentClose rest with ⟨hnone, hrest⟩ | ⟨offset, hsome, hoffset⟩
  · rw [hrest, List.append_nil] at hcut
    rw [hcut, hsize] at hpushed
    rw [hnone]
    dsimp only
    rw [hpushed]
    refine ⟨none, ?_, fun _ => hrest, by simp⟩
    rw [lexComment, hcut]
    rfl
  · have hstop : start + byteSize commentOpen + offset + byteSize commentClose =
        start + byteSize (commentOpen ++ (splitComment rest).1) := by
      rw [byteSize_append, hoffset]
      omega
    rw [hsome]
    dsimp only
    rw [hstop, hpushed]
    exact ⟨_, rfl, by simp, by simp⟩

end Checked

end Markup

end PrettyMarkup
