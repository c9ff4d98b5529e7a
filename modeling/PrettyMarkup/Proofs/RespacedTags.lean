import PrettyMarkup.Markup.Outline
import PrettyMarkup.Proofs.Lines
import PrettyMarkup.Proofs.TagLexemes

/-!
# Tags with other blanks

The lexer looks at blanks only as blanks: it cuts a tag and the tag's respaced forms into the
same tokens, up to blanks.  So a tag has the outline it has on one line, whether it is whole
(`outlineOf_lexemes_closed`) or has no end (`outlineOf_lexemes_open`).
-/

namespace PrettyMarkup

namespace Markup

open Text

/-- The outline of a list of lexemes. -/
def outlineOf (lexemes : List Lexeme) : List (Kind × List Char) := lexemes.flatMap Lexeme.outline

@[simp] theorem outlineOf_nil : outlineOf [] = [] := rfl

theorem outlineOf_cons (lexeme : Lexeme) (lexemes : List Lexeme) :
    outlineOf (lexeme :: lexemes) = lexeme.outline ++ outlineOf lexemes := rfl

@[simp] theorem outlineOf_append (a b : List Lexeme) :
    outlineOf (a ++ b) = outlineOf a ++ outlineOf b := by
  simp [outlineOf]

theorem outline_eq {a b : List Char} (h : eraseBlanks a = eraseBlanks b) (kind : Kind) :
    Lexeme.outline ⟨kind, a⟩ = Lexeme.outline ⟨kind, b⟩ := by
  simp [Lexeme.outline, h]

theorem outline_allBlank {text : List Char} (h : AllBlank text) (kind : Kind) :
    Lexeme.outline ⟨kind, text⟩ = [] := by
  simp [Lexeme.outline, eraseBlanks_eq_nil_iff.2 h]

theorem outline_cons {c : Char} (h : isBlank c = false) (kind : Kind) (rest : List Char) :
    Lexeme.outline ⟨kind, c :: rest⟩ = [(kind, c :: eraseBlanks rest)] := by
  simp [Lexeme.outline, eraseBlanks_cons h]

theorem outlineOf_ofChars (kind : Kind) (chars : List Char) :
    outlineOf (Lexeme.ofChars kind chars) = Lexeme.outline ⟨kind, chars⟩ := by
  cases chars with
  | nil => rfl
  | cons c chars => simp [Lexeme.ofChars, outlineOf]

/-! ## Respaced tags -/

/-- What stands behind a name is its value with the `=`. -/
theorem eq_of_dropWhile_equals {written value : List Char} {c : Char}
    (h : written.dropWhile (· != '=') = c :: value) : c = '=' := by
  have hc := eq_false_of_mem_head?_dropWhile (· != '=') written (by rw [h]; rfl)
  simpa using hc

theorem attributeLexemes_eq (written : List Char) :
    attributeLexemes written =
      if written.takeWhile (· != '=') = [] ∨ written.dropWhile (· != '=') = [] then
        [⟨.attributeName, written⟩]
      else
        ⟨.attributeName, written.takeWhile (· != '=')⟩ :: ⟨.equals, ['=']⟩ ::
          Lexeme.ofChars .attributeValue (written.dropWhile (· != '=')).tail := by
  rw [attributeLexemes]
  split
  · rename_i c name equals value hname hvalue
    have hequals : equals = '=' := eq_of_dropWhile_equals hvalue
    rw [hname, hvalue, hequals, if_neg (by simp)]
    rfl
  · rename_i hother
    rw [if_pos]
    by_contra hboth
    rw [not_or] at hboth
    obtain ⟨c, name, hname⟩ := List.exists_cons_of_ne_nil hboth.1
    obtain ⟨equals, value, hvalue⟩ := List.exists_cons_of_ne_nil hboth.2
    exact hother c name equals value hname hvalue

/-- What stands behind the first equals sign is the value. -/
theorem attributeLexemes_value {name : List Char} (hne : name ≠ []) (hname : ∀ c ∈ name, c ≠ '=')
    (value : List Char) :
    attributeLexemes (name ++ '=' :: value) =
      ⟨.attributeName, name⟩ :: ⟨.equals, ['=']⟩ :: Lexeme.ofChars .attributeValue value := by
  have hfront : ∀ c ∈ name, (c != '=') = true := by simpa using hname
  have hstop : ∀ c ∈ ('=' :: value).head?, (c != '=') = false := by simp
  obtain ⟨htake, hdrop⟩ := takeWhile_dropWhile_append hfront hstop
  rw [attributeLexemes_eq, htake, hdrop, if_neg (by simp [hne])]
  rfl

section Respaced

variable {a b : List Char}

theorem outlineOf_attributeLexemes (h : Respaced a b) :
    outlineOf (attributeLexemes a) = outlineOf (attributeLexemes b) := by
  have hblank : ∀ c, isBlank c = true → (c != '=') = true := by
    intro c hc
    simpa using ne_of_isBlank hc (by decide)
  obtain ⟨hname, hvalue⟩ := h.takeWhile_dropWhile_of_pos hblank
  rw [attributeLexemes_eq, attributeLexemes_eq]
  simp only [hname.eq_nil_iff, hvalue.eq_nil_iff]
  split
  · simp only [outlineOf_cons, outline_eq h.eraseBlanks_eq]
  · rename_i hboth
    rw [not_or] at hboth
    obtain ⟨equals, value, hb⟩ := List.exists_cons_of_ne_nil hboth.2
    have hequals : equals = '=' := eq_of_dropWhile_equals hb
    rw [hb, hequals] at hvalue
    obtain ⟨value', ha, hrest⟩ := hvalue.symm.exists_cons (by decide)
    simp only [outlineOf_cons, outlineOf_ofChars, outline_eq hname.eraseBlanks_eq, ha, hb,
      List.tail_cons, outline_eq hrest.symm.eraseBlanks_eq]

/-- A quote is open, or nothing is. -/
def QuoteState.Sound (state : QuoteState) : Prop := ∀ quote ∈ state.opened, isQuote quote = true

theorem QuoteState.sound_next {state : QuoteState} (h : state.Sound) (c : Char) :
    (state.next c).Sound := by
  obtain ⟨opened, afterEquals⟩ := state
  intro quote hquote
  cases opened with
  | none =>
      simp only [QuoteState.next] at hquote
      split at hquote
      · rename_i hc
        simp only [Option.mem_def, Option.some.injEq] at hquote
        rw [← hquote]
        exact (Bool.and_eq_true_iff.1 hc).1
      · simp at hquote
  | some other =>
      simp only [QuoteState.next] at hquote
      split at hquote
      · simp at hquote
      · exact h quote hquote

theorem QuoteState.next_of_isBlank {state : QuoteState} (h : state.Sound) {c : Char}
    (hc : isBlank c = true) : state.next c = ⟨state.opened, false⟩ := by
  obtain ⟨opened, afterEquals⟩ := state
  have hequals : c ≠ '=' := ne_of_isBlank hc (by decide)
  have hquote : isQuote c = false := isQuote_of_isBlank hc
  cases opened with
  | none => simp [QuoteState.next, hequals, hquote]
  | some quote =>
      have hne : c ≠ quote := by
        rintro rfl
        rw [h c rfl] at hquote
        simp at hquote
      simp [QuoteState.next, hequals, hne]

/-- Blanks in a guarded value belong to the attribute. -/
theorem attributeLength_run {state : QuoteState} (h : state.Sound) {guard : Bool}
    (hgo : (!guard || state.opened.isNone) = false) {run : List Char} (hne : run ≠ [])
    (hrun : AllBlank run) (rest : List Char) :
    attributeLength guard state (run ++ rest) =
      run.length + attributeLength guard ⟨state.opened, false⟩ rest := by
  induction run generalizing state with
  | nil => exact absurd rfl hne
  | cons c run ih =>
      obtain ⟨hc, hrun⟩ := allBlank_cons.1 hrun
      rw [List.cons_append, attributeLength, if_neg (by simp [hc, hgo]),
        QuoteState.next_of_isBlank h hc]
      cases run with
      | nil => simp [Nat.add_comm]
      | cons d run =>
          rw [@ih ⟨state.opened, false⟩ h hgo (by simp) hrun]
          simp only [List.length_cons]
          omega

theorem attributeLength_of_not_go {state : QuoteState} {guard : Bool}
    (hstop : (!guard || state.opened.isNone) = true) {run : List Char} (hne : run ≠ [])
    (hrun : AllBlank run) (rest : List Char) : attributeLength guard state (run ++ rest) = 0 := by
  obtain ⟨c, run, rfl⟩ := List.exists_cons_of_ne_nil hne
  have hc : isBlank c = true := (allBlank_cons.1 hrun).1
  rw [List.cons_append, attributeLength, if_pos (by simp [hc, hstop])]

/-- Respaced texts are cut at the end of the same attribute. -/
theorem attributeLength_respaced (h : Respaced a b) (guard : Bool) {state : QuoteState}
    (hstate : state.Sound) :
    Respaced (a.take (attributeLength guard state a)) (b.take (attributeLength guard state b)) ∧
      Respaced (a.drop (attributeLength guard state a))
        (b.drop (attributeLength guard state b)) := by
  induction h generalizing state with
  | nil => exact ⟨.nil, .nil⟩
  | @char c s t hc hst ih =>
      have hlength : ∀ rest, attributeLength guard state (c :: rest) =
          attributeLength guard (state.next c) rest + 1 := by
        intro rest
        rw [attributeLength, if_neg (by simp [hc])]
      obtain ⟨htake, hdrop⟩ := ih (QuoteState.sound_next hstate c)
      rw [hlength, hlength]
      exact ⟨.char hc htake, hdrop⟩
  | @run v w s t hv hw hvb hwb hst ih =>
      cases hgo : !guard || state.opened.isNone with
      | true =>
          rw [attributeLength_of_not_go hgo hv hvb, attributeLength_of_not_go hgo hw hwb]
          exact ⟨.nil, .run hv hw hvb hwb hst⟩
      | false =>
          obtain ⟨htake, hdrop⟩ := @ih ⟨state.opened, false⟩ hstate
          rw [attributeLength_run hstate hgo hv hvb, attributeLength_run hstate hgo hw hwb,
            List.take_length_add_append, List.take_length_add_append,
            List.drop_length_add_append, List.drop_length_add_append]
          exact ⟨.run hv hw hvb hwb htake, hdrop⟩

theorem outlineOf_gapsAndAttributes (h : Respaced a b) (guard : Bool) :
    outlineOf (gapsAndAttributes guard a) = outlineOf (gapsAndAttributes guard b) := by
  induction a using gapsAndAttributes.induct guard generalizing b with
  | case1 => rw [h.nil_left]
  | case2 c rest hc ih =>
      obtain ⟨d, rest', rfl, hd⟩ := h.exists_cons_of_isBlank hc
      have hdrop := (h.takeWhile_dropWhile_of_pos fun _ hx => hx).2
      rw [List.dropWhile_cons_of_pos hc, List.dropWhile_cons_of_pos hd] at hdrop
      have hgap : ∀ {c : Char}, isBlank c = true → ∀ rest : List Char,
          Lexeme.outline ⟨.text, c :: rest.takeWhile isBlank⟩ = [] := fun hc rest =>
        outline_allBlank (allBlank_run hc rest) .text
      rw [gapsAndAttributes_gap hc, gapsAndAttributes_gap hd, outlineOf_cons, outlineOf_cons,
        hgap hc, hgap hd, ih hdrop]
  | case3 c rest hc n =>
      rename_i ih
      have hc : isBlank c = false := by simpa using hc
      obtain ⟨rest', rfl, hrest⟩ := h.exists_cons hc
      have hsound : (QuoteState.outside.next c).Sound :=
        QuoteState.sound_next (by simp [QuoteState.Sound, QuoteState.outside]) c
      obtain ⟨htake, hdrop⟩ := attributeLength_respaced hrest guard hsound
      rw [gapsAndAttributes_attribute hc, gapsAndAttributes_attribute hc, outlineOf_append,
        outlineOf_append, ih hdrop, outlineOf_attributeLexemes (.char hc htake)]

theorem outlineOf_nameAndAttributes (h : Respaced a b) (guard : Bool) :
    outlineOf (nameAndAttributes guard a) = outlineOf (nameAndAttributes guard b) := by
  obtain ⟨hname, hrest⟩ := h.takeWhile_dropWhile_kept
  rw [nameAndAttributes, nameAndAttributes, outlineOf_append, outlineOf_append, hname,
    outlineOf_gapsAndAttributes hrest]

theorem ofBody_respaced (h : Respaced a b) : TagForm.ofBody a = TagForm.ofBody b := by
  have hhead : ∀ {c : Char}, isBlank c = false → (a.head? == some c) = (b.head? == some c) := by
    intro c hc
    rw [Bool.eq_iff_iff, beq_iff_eq, beq_iff_eq]
    exact h.head?_eq_some_iff hc
  rw [TagForm.ofBody, TagForm.ofBody, hhead (by decide), hhead (by decide)]

theorem getLast?_respaced (h : Respaced a b) {c : Char} (hc : isBlank c = false)
    (ha : a.getLast? = some c) :
    b.getLast? = some c ∧ Respaced a.dropLast b.dropLast := by
  have hcat : a.dropLast ++ [c] = a := List.dropLast_append_getLast? c ha
  rw [← hcat] at h
  obtain ⟨b', rfl, hb'⟩ := h.exists_concat hc
  simpa using hb'

/-- A body that ends has the outline of its respaced forms. -/
theorem outlineOf_endedBody (h : Respaced a b) (guard : Bool) :
    outlineOf (endedBody guard a) = outlineOf (endedBody guard b) := by
  have hslash : isBlank '/' = false := by decide
  rw [endedBody, endedBody, ofBody_respaced h]
  split
  · by_cases ha : a.getLast? = some '/'
    · obtain ⟨hb, hfront⟩ := getLast?_respaced h hslash ha
      rw [ha, hb, if_pos (by rfl), if_pos (by rfl), outlineOf_append, outlineOf_append,
        outlineOf_nameAndAttributes hfront]
    · have hb : b.getLast? ≠ some '/' := fun hb => ha (getLast?_respaced h.symm hslash hb).1
      rw [if_neg (by simpa using ha), if_neg (by simpa using hb), outlineOf_append,
        outlineOf_append, outlineOf_nameAndAttributes h]
  · rw [outlineOf_append, outlineOf_append, outlineOf_ofChars, outlineOf_ofChars,
      outline_eq h.eraseBlanks_eq]

/-- A tag has the outline of its respaced forms. -/
theorem outlineOf_tagLexemes (h : Respaced a b)
    (ha : ∃ front, meetsTag front = true ∧ a = front ++ ['>']) (guard : Bool) :
    outlineOf (tagLexemes guard a) = outlineOf (tagLexemes guard b) := by
  obtain ⟨front, hfront, rfl⟩ := ha
  obtain ⟨body, rfl⟩ := exists_of_meetsTag hfront
  have hopen : commentOpen.isPrefixOf _ = commentOpen.isPrefixOf _ :=
    h.isPrefixOf_eq Region.comment.isBlank_opener
  have hkept := h.eraseBlanks_eq
  obtain ⟨front', rfl, hfront'⟩ := h.exists_concat (by decide)
  obtain ⟨body', rfl, hbody⟩ := hfront'.exists_cons (by decide)
  rw [tagLexemes, tagLexemes, hopen]
  split
  · simp only [outlineOf_cons, outline_eq hkept]
  · simp only [outlineOf_cons, List.cons_append, List.tail_cons, List.dropLast_concat,
      outlineOf_endedBody hbody]

/-- A tag without end has the outline of its respaced forms. -/
theorem outlineOf_openLexemes (h : Respaced a b) (ha : meetsTag a = true) :
    outlineOf (openLexemes a) = outlineOf (openLexemes b) := by
  obtain ⟨body, rfl⟩ := exists_of_meetsTag ha
  have hopen : commentOpen.isPrefixOf _ = commentOpen.isPrefixOf _ :=
    h.isPrefixOf_eq Region.comment.isBlank_opener
  have hkept := h.eraseBlanks_eq
  obtain ⟨body', rfl, hbody⟩ := h.exists_cons (by decide)
  rw [openLexemes, openLexemes, hopen]
  split
  · simp only [outlineOf_cons, outline_eq hkept]
  · simp only [outlineOf_cons, outlineOf_ofChars, List.tail_cons, ofBody_respaced hbody,
      outline_eq hbody.eraseBlanks_eq]

end Respaced

/-! ## Tags on one line -/

theorem isPrefixOf_trimEnd {front : List Char} (hfront : ∀ c ∈ front, isBlank c = false)
    (text : List Char) : front.isPrefixOf (trimEnd text) = front.isPrefixOf text := by
  obtain ⟨blanks, hblanks, hcat⟩ := exists_trimEnd_append text
  cases blanks with
  | nil =>
      rw [List.append_nil] at hcat
      rw [← hcat]
  | cons c blanks =>
      have hc : c ∉ front := by
        intro hmem
        have hblank := (allBlank_cons.1 hblanks).1
        exact ne_of_isBlank hblank (hfront c hmem) rfl
      rw [hcat, Region.isPrefixOf_append_cons hc, ← hcat]

theorem ofBody_trimEnd (body : List Char) :
    TagForm.ofBody (trimEnd body) = TagForm.ofBody body := by
  have hhead : ∀ (c : Char) (text : List Char), (text.head? == some c) = [c].isPrefixOf text := by
    intro c text
    cases text with
    | nil => rfl
    | cons d text => simp [List.isPrefixOf, BEq.comm]
  rw [TagForm.ofBody, TagForm.ofBody, hhead, hhead, hhead, hhead,
    isPrefixOf_trimEnd (isBlank_eq_false_of_all (by decide)),
    isPrefixOf_trimEnd (isBlank_eq_false_of_all (by decide))]

/-- A tag without end has the same outline without its last blanks. -/
theorem outlineOf_openLexemes_trimEnd {tag : List Char} (h : meetsTag tag = true) :
    outlineOf (openLexemes (trimEnd tag)) = outlineOf (openLexemes tag) := by
  obtain ⟨body, rfl⟩ := exists_of_meetsTag h
  have hopen : commentOpen.isPrefixOf (trimEnd ('<' :: body)) =
      commentOpen.isPrefixOf ('<' :: body) :=
    isPrefixOf_trimEnd Region.comment.isBlank_opener _
  have htrim : trimEnd ('<' :: body) = '<' :: trimEnd body := trimEnd_cons (by decide) body
  have hkept := eraseBlanks_trimEnd ('<' :: body)
  rw [openLexemes, openLexemes, hopen]
  rw [htrim] at hkept ⊢
  split
  · simp only [outlineOf_cons, outline_eq hkept]
  · simp only [outlineOf_cons, outlineOf_ofChars, List.tail_cons, ofBody_trimEnd,
      outline_eq (eraseBlanks_trimEnd body)]

section Unsplit

variable {guard : Bool} {tag : List Char}
  (hsplit : lexGuards guard = uniform true ∨ holdsSplit tag = false)

include hsplit

theorem IsClosed.lexemes_eq (h : IsClosed tag) : lexemes guard tag = tagLexemes guard tag := by
  have hcut := h.cutTag?_append hsplit []
  rw [List.append_nil] at hcut
  rw [lexemes_tag h.meetsTag_eq hcut, lexemes_nil, List.append_nil]

theorem IsOpen.lexemes_eq (h : IsOpen tag) : lexemes guard tag = openLexemes tag :=
  lexemes_open h.meetsTag_eq (cutTag?_eq_none_of_open h.meetsTag_eq h.cutTag?_eq hsplit)

/-- A whole tag has the outline it has on one line. -/
theorem outlineOf_lexemes_closed (h : IsClosed tag) :
    outlineOf (lexemes guard (onOneLine tag)) = outlineOf (lexemes guard tag) := by
  calc
    outlineOf (lexemes guard (onOneLine tag)) = outlineOf (tagLexemes guard (foldRuns tag)) := by
      rw [h.isClosed_onOneLine.lexemes_eq (by rwa [holdsSplit_onOneLine]), h.onOneLine_eq]
    _ = outlineOf (tagLexemes guard tag) :=
      (outlineOf_tagLexemes (.foldRuns tag) h.eq_concat guard).symm
    _ = outlineOf (lexemes guard tag) := by rw [h.lexemes_eq hsplit]

/-- So has a tag without end. -/
theorem outlineOf_lexemes_open (h : IsOpen tag) :
    outlineOf (lexemes guard (onOneLine tag)) = outlineOf (lexemes guard tag) := by
  have hmeets : meetsTag (foldRuns tag) = true := by
    rw [← meetsTag_respaced (.foldRuns tag), h.meetsTag_eq]
  calc
    outlineOf (lexemes guard (onOneLine tag))
      = outlineOf (openLexemes (trimEnd (foldRuns tag))) := by
        rw [h.isOpen_onOneLine.lexemes_eq (by rwa [holdsSplit_onOneLine]), onOneLine]
    _ = outlineOf (openLexemes (foldRuns tag)) := outlineOf_openLexemes_trimEnd hmeets
    _ = outlineOf (openLexemes tag) :=
      (outlineOf_openLexemes (.foldRuns tag) h.meetsTag_eq).symm
    _ = outlineOf (lexemes guard tag) := by rw [h.lexemes_eq hsplit]

end Unsplit

end Markup

end PrettyMarkup
