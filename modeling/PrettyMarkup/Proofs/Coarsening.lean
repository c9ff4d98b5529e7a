import PrettyMarkup.Proofs.Grammar
import PrettyMarkup.Proofs.Settling

/-!
# Guarded tokens are coarser

Where a text holds no `><`, guarding does not move the end of a tag.  What is left of it is seen
inside a tag: a guarded value keeps its blanks, and not guarded it is cut at them.  So the guarded
lexemes are the other ones with some neighbours joined (`Coarsens`), and none of those that are
joined belongs to the frame of a tag.
-/

namespace PrettyMarkup

namespace Markup

open Text

/-- Whether tokens of a kind make up the frame of a tag, and not its gaps and attributes. -/
def Kind.isFrame : Kind → Bool
  | bracketOpen | bracketClose | tagOpenName | tagCloseName => true
  | processingInstruction | comment => true
  | attributeName | equals | attributeValue | text => false

/-- Whether a token starts or ends at a place. -/
def IsBoundary (tokens : List Token) (place : Nat) : Prop :=
  ∃ token ∈ tokens, place = token.start ∨ place = token.stop

/-- No lexeme of a list belongs to the frame of a tag. -/
def OffFrame (lexemes : List Lexeme) : Prop := ∀ lexeme ∈ lexemes, lexeme.kind.isFrame = false

/-- The first list is the second with some neighbours joined, none of them of a tag's frame. -/
inductive Coarsens : List Lexeme → List Lexeme → Prop
  | nil : Coarsens [] []
  | same (lexeme : Lexeme) {coarse fine : List Lexeme} (h : Coarsens coarse fine) :
      Coarsens (lexeme :: coarse) (lexeme :: fine)
  | joined {kind : Kind} {parts coarse fine : List Lexeme} (hne : parts ≠ [])
      (hkind : kind.isFrame = false) (hparts : OffFrame parts) (h : Coarsens coarse fine) :
      Coarsens (⟨kind, Lexeme.join parts⟩ :: coarse) (parts ++ fine)

namespace Coarsens

theorem refl (lexemes : List Lexeme) : Coarsens lexemes lexemes := by
  induction lexemes with
  | nil => exact .nil
  | cons lexeme lexemes ih => exact .same lexeme ih

theorem append {a b coarse fine : List Lexeme} (hab : Coarsens a b) (h : Coarsens coarse fine) :
    Coarsens (a ++ coarse) (b ++ fine) := by
  induction hab with
  | nil => exact h
  | same lexeme _ ih => exact .same lexeme ih
  | joined hne hkind hparts _ ih =>
      rw [List.append_assoc]
      exact .joined hne hkind hparts ih

end Coarsens

/-! ## Places -/

theorem isBoundary_append {a b : List Token} {place : Nat} :
    IsBoundary (a ++ b) place ↔ IsBoundary a place ∨ IsBoundary b place := by
  simp [IsBoundary, or_and_right, exists_or]

theorem isBoundary_cons {token : Token} {tokens : List Token} {place : Nat} :
    IsBoundary (token :: tokens) place ↔
      (place = token.start ∨ place = token.stop) ∨ IsBoundary tokens place := by
  simp [IsBoundary]

/-- Lexemes start and end where the text does that they make up. -/
theorem isBoundary_place_join {parts : List Lexeme} (hne : parts ≠ []) (start : Nat) :
    IsBoundary (Lexeme.place start parts) start ∧
      IsBoundary (Lexeme.place start parts) (start + byteSize (Lexeme.join parts)) := by
  obtain ⟨first, rest, rfl⟩ := List.exists_cons_of_ne_nil hne
  refine ⟨isBoundary_cons.2 (.inl (.inl rfl)), ?_⟩
  cases hlast : (Lexeme.place start (first :: rest)).getLast? with
  | none => simp [Lexeme.place] at hlast
  | some token =>
      exact ⟨token, List.mem_of_getLast? hlast, .inr (Lexeme.stop_of_getLast?_place hlast).symm⟩

/-- A boundary of the coarser list is one of the finer list. -/
theorem Coarsens.isBoundary {coarse fine : List Lexeme} (h : Coarsens coarse fine)
    {start place : Nat} (hplace : IsBoundary (Lexeme.place start coarse) place) :
    IsBoundary (Lexeme.place start fine) place := by
  induction h generalizing start with
  | nil => exact hplace
  | same lexeme _ ih =>
      rw [Lexeme.place, isBoundary_cons] at hplace ⊢
      exact hplace.imp_right ih
  | joined hne _ _ _ ih =>
      rw [Lexeme.place, isBoundary_cons] at hplace
      rw [Lexeme.place_append, isBoundary_append]
      obtain ⟨hstart, hstop⟩ := isBoundary_place_join hne start
      rcases hplace with (rfl | rfl) | hplace
      · exact .inl hstart
      · exact .inl hstop
      · exact .inr (ih hplace)

theorem filter_isFrame_place {lexemes : List Lexeme} (h : OffFrame lexemes) (start : Nat) :
    (Lexeme.place start lexemes).filter (fun token => token.kind.isFrame) = [] := by
  rw [List.filter_eq_nil_iff]
  intro token htoken
  simpa using h _ (Lexeme.mem_of_mem_place htoken)

/-- The frames of tags are the same tokens in both lists. -/
theorem Coarsens.filter_isFrame {coarse fine : List Lexeme} (h : Coarsens coarse fine)
    (start : Nat) :
    (Lexeme.place start coarse).filter (fun token => token.kind.isFrame) =
      (Lexeme.place start fine).filter fun token => token.kind.isFrame := by
  induction h generalizing start with
  | nil => rfl
  | same lexeme _ ih => rw [Lexeme.place, Lexeme.place, List.filter_cons, List.filter_cons, ih]
  | joined _ hkind hparts _ ih =>
      rw [Lexeme.place, Lexeme.place_append, List.filter_cons_of_neg (by simp [hkind]),
        List.filter_append, filter_isFrame_place hparts, ih, List.nil_append]

/-! ## Lexemes off the frame -/

theorem offFrame_ofChars {kind : Kind} (hkind : kind.isFrame = false) (chars : List Char) :
    OffFrame (Lexeme.ofChars kind chars) := by
  cases chars with
  | nil => simp [Lexeme.ofChars, OffFrame]
  | cons c chars => simpa [Lexeme.ofChars, OffFrame] using hkind

theorem offFrame_attributeLexemes (written : List Char) : OffFrame (attributeLexemes written) := by
  rw [attributeLexemes_eq]
  split
  · simp [OffFrame, Kind.isFrame]
  · exact List.forall_mem_cons.2 ⟨rfl, List.forall_mem_cons.2 ⟨rfl, offFrame_ofChars rfl _⟩⟩

theorem offFrame_gapsAndAttributes (guard : Bool) (body : List Char) :
    OffFrame (gapsAndAttributes guard body) := by
  fun_induction gapsAndAttributes guard body with
  | case1 => simp [OffFrame]
  | case2 c rest hc ih => exact List.forall_mem_cons.2 ⟨rfl, ih⟩
  | case3 c rest hc n ih => exact List.forall_mem_append.2 ⟨offFrame_attributeLexemes _, ih⟩

/-! ## Cuts at blanks -/

/-- Not guarded, an attribute is a run without blanks. -/
theorem take_drop_attributeLength_unguarded (state : QuoteState) (rest : List Char) :
    rest.take (attributeLength false state rest) = rest.takeWhile (fun c => !isBlank c) ∧
      rest.drop (attributeLength false state rest) = rest.dropWhile fun c => !isBlank c := by
  induction rest generalizing state with
  | nil => simp
  | cons c rest ih => cases hc : isBlank c <;> simp [attributeLength, hc, ih]

theorem gapsAndAttributes_unguarded {c : Char} (hc : isBlank c = false) (rest : List Char) :
    gapsAndAttributes false (c :: rest) =
      attributeLexemes (c :: rest.takeWhile fun c => !isBlank c) ++
        gapsAndAttributes false (rest.dropWhile fun c => !isBlank c) := by
  obtain ⟨htake, hdrop⟩ := take_drop_attributeLength_unguarded (QuoteState.outside.next c) rest
  rw [gapsAndAttributes_attribute hc, htake, hdrop]

/-- A cut that is made within a front is the cut of the front. -/
theorem takeWhile_dropWhile_front {p : Char → Bool} {front rest : List Char}
    (h : front.dropWhile p = [] → ∀ c ∈ rest.head?, p c = false) :
    (front ++ rest).takeWhile p = front.takeWhile p ∧
      (front ++ rest).dropWhile p = front.dropWhile p ++ rest := by
  have hhead : ∀ c ∈ (front.dropWhile p ++ rest).head?, p c = false := by
    intro c hc
    cases hmore : front.dropWhile p with
    | nil =>
        rw [hmore] at hc
        exact h hmore c hc
    | cons d more =>
        rw [hmore] at hc
        exact eq_false_of_mem_head?_dropWhile p front (by rw [hmore]; exact hc)
  have hcut := takeWhile_dropWhile_append
    (fun c hc => List.mem_takeWhile_imp (p := p) (l := front) hc) hhead
  rwa [← List.append_assoc, List.takeWhile_append_dropWhile] at hcut

/-- A text ends as its suffixes do. -/
theorem mem_getLast?_of_isSuffix {part text : List Char} (h : part <:+ text) {c : Char}
    (hc : c ∈ part.getLast?) : c ∈ text.getLast? := by
  obtain ⟨front, rfl⟩ := h
  rw [Option.mem_def] at hc ⊢
  rw [List.getLast?_append, hc, Option.some_or]

/-- Not guarded, gaps and attributes are cut in front of a gap as if nothing followed. -/
theorem gapsAndAttributes_append {front rest : List Char}
    (hfront : ∀ c ∈ front.getLast?, isBlank c = false)
    (hrest : ∀ c ∈ rest.head?, isBlank c = true) :
    gapsAndAttributes false (front ++ rest) =
      gapsAndAttributes false front ++ gapsAndAttributes false rest := by
  induction front using gapsAndAttributes.induct false with
  | case1 => simp
  | case2 c front hc ih =>
      have hsuffix := (List.dropWhile_suffix isBlank).trans (List.suffix_cons c front)
      have hmore : front.dropWhile isBlank ≠ [] := by
        intro hnil
        have hblank : AllBlank (c :: front) :=
          allBlank_cons.2 ⟨hc, List.dropWhile_eq_nil_iff.1 hnil⟩
        have hlast := List.getLast?_eq_some_getLast (List.cons_ne_nil c front)
        exact ne_of_isBlank (hblank _ (List.mem_of_getLast? hlast)) (hfront _ hlast) rfl
      have hstop : front.dropWhile isBlank = [] → ∀ d ∈ rest.head?, isBlank d = false :=
        (absurd · hmore)
      obtain ⟨htake, hdrop⟩ := takeWhile_dropWhile_front hstop
      rw [List.cons_append, gapsAndAttributes_gap hc, gapsAndAttributes_gap hc, htake, hdrop,
        ih fun d hd => hfront d (mem_getLast?_of_isSuffix hsuffix hd), List.cons_append]
  | case3 c front hc n ih =>
      have hc : isBlank c = false := by simpa using hc
      have hn : front.drop n = front.dropWhile fun c => !isBlank c :=
        (take_drop_attributeLength_unguarded _ front).2
      rw [hn] at ih
      have hsuffix := (List.dropWhile_suffix fun c => !isBlank c).trans (List.suffix_cons c front)
      have hstop : ∀ d ∈ rest.head?, (!isBlank d) = false := by simpa using hrest
      obtain ⟨htake, hdrop⟩ := takeWhile_dropWhile_front fun _ : front.dropWhile _ = [] => hstop
      rw [List.cons_append, gapsAndAttributes_unguarded hc, gapsAndAttributes_unguarded hc, htake,
        hdrop, ih fun d hd => hfront d (mem_getLast?_of_isSuffix hsuffix hd), List.append_assoc]

/-! ## Attributes -/

/-- What a guarded attribute leaves starts with a blank, and the attribute does not end with one:
blanks within it stand in a value that is still open. -/
theorem isBlank_of_mem_getLast?_take_attributeLength {state : QuoteState} (hstate : state.Sound)
    {rest : List Char} (hmore : rest.drop (attributeLength true state rest) ≠ []) {c : Char}
    (h : c ∈ (rest.take (attributeLength true state rest)).getLast?) : isBlank c = false := by
  induction rest generalizing state with
  | nil => simp at h
  | cons d rest ih =>
      rw [attributeLength] at h hmore
      split at h
      · simp at h
      · rename_i hgo
        rw [if_neg hgo, List.drop_succ_cons] at hmore
        rw [List.take_succ_cons] at h
        cases htake : rest.take (attributeLength true (state.next d) rest) with
        | cons e inside =>
            rw [htake, List.getLast?_cons_cons, ← htake] at h
            exact ih (QuoteState.sound_next hstate d) hmore h
        | nil =>
            rw [htake] at h
            obtain rfl : d = c := by simpa using h
            cases hd : isBlank d with
            | false => rfl
            | true =>
                -- a blank that is taken stands in an open value, which a blank leaves open: so the
                -- next character is taken too, and the blank is not the last
                have hopen : state.opened.isNone = false := by
                  rw [hd, Bool.true_and, Bool.not_true, Bool.false_or, Bool.not_eq_true] at hgo
                  exact hgo
                rw [QuoteState.next_of_isBlank hstate hd] at htake hmore
                cases rest with
                | nil => simp at hmore
                | cons e rest => simp [attributeLength, hopen] at htake

/-- What parts make up is coarser than the parts. -/
theorem coarsens_ofChars {kind : Kind} (hkind : kind.isFrame = false) {parts : List Lexeme}
    (hparts : ∀ part ∈ parts, WithinTag part) (hoff : OffFrame parts) :
    Coarsens (Lexeme.ofChars kind (Lexeme.join parts)) parts := by
  cases parts with
  | nil => exact .nil
  | cons part parts =>
      have hne : Lexeme.join (part :: parts) ≠ [] := by
        rw [Lexeme.join_cons]
        simp [(hparts part (by simp)).chars_ne]
      rw [Lexeme.ofChars, if_neg (by simpa using hne)]
      simpa using Coarsens.joined (List.cons_ne_nil part parts) hkind hoff .nil

/-- Not guarded, a value ends at its first blank. -/
theorem gapsAndAttributes_value {name : List Char} (hne : name ≠ [])
    (hname : ∀ c ∈ name, isBlank c = false ∧ c ≠ '=') (value : List Char) :
    gapsAndAttributes false (name ++ '=' :: value) =
      ⟨.attributeName, name⟩ :: ⟨.equals, ['=']⟩ ::
        (Lexeme.ofChars .attributeValue (value.takeWhile fun c => !isBlank c) ++
          gapsAndAttributes false (value.dropWhile fun c => !isBlank c)) := by
  obtain ⟨c, name, rfl⟩ := List.exists_cons_of_ne_nil hne
  obtain ⟨hc, hrest⟩ := List.forall_mem_cons.1 hname
  have hkept : ∀ d ∈ name, (!isBlank d) = true := by
    intro d hd
    simp [(hrest d hd).1]
  have hequals : isBlank '=' = false := by decide
  rw [List.cons_append, gapsAndAttributes_unguarded hc.1, List.takeWhile_append_of_pos hkept,
    List.dropWhile_append_of_pos hkept, List.takeWhile_cons_of_pos (by simp [hequals]),
    List.dropWhile_cons_of_pos (by simp [hequals]), ← List.cons_append,
    attributeLexemes_value hne fun d hd => (hname d hd).2]
  rfl

/-- An attribute as a whole, or its value as a whole, is coarser than what is cut at blanks. -/
theorem coarsens_attributeLexemes {written : List Char} (hne : written ≠ [])
    (hname : ∀ c ∈ written.takeWhile (· != '='), isBlank c = false) :
    Coarsens (attributeLexemes written) (gapsAndAttributes false written) := by
  by_cases hcut : written.takeWhile (· != '=') = [] ∨ written.dropWhile (· != '=') = []
  · have hwhole := @coarsens_ofChars .attributeName rfl _
      (withinTag_gapsAndAttributes false written) (offFrame_gapsAndAttributes false written)
    rw [join_gapsAndAttributes, Lexeme.ofChars, if_neg (by simpa using hne)] at hwhole
    rwa [attributeLexemes_eq, if_pos hcut]
  · obtain ⟨hfront, hvalue⟩ := not_or.1 hcut
    obtain ⟨equals, value, hbehind⟩ := List.exists_cons_of_ne_nil hvalue
    obtain rfl : equals = '=' := eq_of_dropWhile_equals hbehind
    have hwritten := List.takeWhile_append_dropWhile (p := (· != '=')) (l := written)
    generalize hkept : written.takeWhile (· != '=') = name at hname hfront hwritten
    have hword : ∀ c ∈ name, isBlank c = false ∧ c ≠ '=' := by
      intro c hc
      rw [← hkept] at hc
      exact ⟨hname c (hkept ▸ hc), by simpa using List.mem_takeWhile_imp hc⟩
    rw [← hwritten, hbehind, gapsAndAttributes_value hfront hword,
      attributeLexemes_value hfront fun c hc => (hword c hc).2]
    have hwithin := List.forall_mem_append.2
      ⟨@withinTag_ofChars .attributeValue (by decide) (value.takeWhile fun c => !isBlank c),
        withinTag_gapsAndAttributes false (value.dropWhile fun c => !isBlank c)⟩
    have hoff := List.forall_mem_append.2
      ⟨@offFrame_ofChars .attributeValue rfl (value.takeWhile fun c => !isBlank c),
        offFrame_gapsAndAttributes false (value.dropWhile fun c => !isBlank c)⟩
    have hparts := @coarsens_ofChars .attributeValue rfl _ hwithin hoff
    rw [Lexeme.join_append, Lexeme.join_ofChars, join_gapsAndAttributes,
      List.takeWhile_append_dropWhile] at hparts
    exact .same _ (.same _ hparts)

/-- The end of a guarded attribute is a cut of the unguarded text too. -/
theorem gapsAndAttributes_at_attributeLength {c : Char} (hc : isBlank c = false)
    (rest : List Char) :
    gapsAndAttributes false (c :: rest) =
      gapsAndAttributes false
          (c :: rest.take (attributeLength true (QuoteState.outside.next c) rest)) ++
        gapsAndAttributes false
          (rest.drop (attributeLength true (QuoteState.outside.next c) rest)) := by
  have hsound : (QuoteState.outside.next c).Sound :=
    QuoteState.sound_next (by simp [QuoteState.Sound, QuoteState.outside]) c
  generalize hstate : QuoteState.outside.next c = state at hsound
  have hwhole : c :: rest.take (attributeLength true state rest) ++
      rest.drop (attributeLength true state rest) = c :: rest := by
    rw [List.cons_append, List.take_append_drop]
  by_cases hmore : rest.drop (attributeLength true state rest) = []
  · rw [hmore, List.append_nil] at hwhole
    rw [hmore, hwhole, gapsAndAttributes_nil, List.append_nil]
  · conv_lhs => rw [← hwhole]
    refine gapsAndAttributes_append ?_ fun d => isBlank_of_mem_head?_drop_attributeLength
    intro d hd
    cases htake : rest.take (attributeLength true state rest) with
    | nil =>
        rw [htake] at hd
        obtain rfl : c = d := by simpa using hd
        exact hc
    | cons e inside =>
        rw [htake, List.getLast?_cons_cons, ← htake] at hd
        exact isBlank_of_mem_getLast?_take_attributeLength hsound hmore hd

/-- A guarded attribute is made up of parts of the unguarded text. -/
theorem coarsens_gapsAndAttributes (body : List Char) :
    Coarsens (gapsAndAttributes true body) (gapsAndAttributes false body) := by
  fun_induction gapsAndAttributes true body with
  | case1 =>
      rw [gapsAndAttributes_nil]
      exact .nil
  | case2 c rest hc ih =>
      rw [gapsAndAttributes_gap hc]
      exact .same _ ih
  | case3 c rest hc n ih =>
      have hc : isBlank c = false := by simpa using hc
      have hattribute : Coarsens (attributeLexemes (c :: rest.take n))
          (gapsAndAttributes false (c :: rest.take n)) :=
        coarsens_attributeLexemes (by simp) fun d => isBlank_of_mem_takeWhile_attribute hc
      -- the unguarded text is cut where the guarded attribute ends, so the attribute is compared
      -- with whole items, and `ih` is about what is left
      rw [gapsAndAttributes_at_attributeLength hc]
      exact hattribute.append ih

/-! ## Ends of tags -/

/-- Where no `><` stands, whether literals are guarded does not decide if a `>` ends a tag. -/
theorem ends_eq_of_holdsSplit {c : Char} {rest : List Char} (h : holdsSplit (c :: rest) = false)
    (guard closed : Bool) :
    (c == '>' && (closed || splitsLiteral guard rest)) = (c == '>' && closed) := by
  rw [holdsSplit_cons, Bool.or_eq_false_iff] at h
  cases hc : c == '>' with
  | false => simp
  | true =>
      have hmeets : meetsTag rest = false := by simpa [hc] using h.1
      simp [splitsLiteral, hmeets]

theorem holdsSplit_tail {c : Char} {rest : List Char} (h : holdsSplit (c :: rest) = false) :
    holdsSplit rest = false :=
  holdsSplit_eq_false_of_isInfix (List.suffix_cons c rest).isInfix h

/-- Without `><` a tag ends at the same `>`, guarded or not. -/
theorem findPlainEnd_eq {body : List Char} (h : holdsSplit body = false) (state : QuoteState) :
    findPlainEnd true state body = findPlainEnd false state body := by
  induction body generalizing state with
  | nil => rfl
  | cons c rest ih =>
      rw [findPlainEnd, findPlainEnd, ends_eq_of_holdsSplit h, ends_eq_of_holdsSplit h,
        ih (holdsSplit_tail h)]

theorem findCdataEnd_eq {body : List Char} (h : holdsSplit body = false)
    (bracketed lastBracket : Bool) :
    findCdataEnd true bracketed lastBracket body =
      findCdataEnd false bracketed lastBracket body := by
  induction body generalizing bracketed lastBracket with
  | nil => rfl
  | cons c rest ih =>
      rw [findCdataEnd, findCdataEnd, ends_eq_of_holdsSplit h, ends_eq_of_holdsSplit h,
        ih (holdsSplit_tail h)]

theorem findTagEnd_eq {body : List Char} (h : holdsSplit body = false) :
    findTagEnd true body = findTagEnd false body := by
  have hdrop : holdsSplit (body.drop cdataBodyOpen.length) = false :=
    holdsSplit_eq_false_of_isInfix (List.drop_suffix _ body).isInfix h
  rw [findTagEnd, findTagEnd, findCdataEnd_eq hdrop, findPlainEnd_eq h]

/-! ## Whole texts -/

theorem coarsens_nameAndAttributes (body : List Char) :
    Coarsens (nameAndAttributes true body) (nameAndAttributes false body) :=
  (Coarsens.refl _).append (coarsens_gapsAndAttributes _)

theorem coarsens_endedBody (body : List Char) :
    Coarsens (endedBody true body) (endedBody false body) := by
  rw [endedBody, endedBody]
  split
  · split
    · exact (coarsens_nameAndAttributes _).append (.refl _)
    · exact (coarsens_nameAndAttributes _).append (.refl _)
  · exact .refl _

theorem coarsens_lexTagBody {body : List Char} (h : holdsSplit body = false) :
    Coarsens (lexTagBody true body).1 (lexTagBody false body).1 ∧
      (lexTagBody true body).2 = (lexTagBody false body).2 := by
  rw [lexTagBody, lexTagBody, findTagEnd_eq h]
  split
  · exact ⟨coarsens_endedBody _, rfl⟩
  · exact ⟨.refl _, rfl⟩

/-- A step reads the same stretch, and guarded it cuts the stretch less. -/
theorem coarsens_lexStep {c : Char} {rest : List Char} (h : holdsSplit rest = false) :
    Coarsens (lexStep true c rest).1 (lexStep false c rest).1 ∧
      (lexStep true c rest).2 = (lexStep false c rest).2 := by
  rw [lexStep, lexStep]
  split
  · split
    · exact ⟨.refl _, rfl⟩
    · obtain ⟨hbody, hafter⟩ := coarsens_lexTagBody h
      exact ⟨.same _ hbody, hafter⟩
  · exact ⟨.refl _, rfl⟩

theorem coarsens_lexemes {source : List Char} (h : holdsSplit source = false) :
    Coarsens (lexemes true source) (lexemes false source) := by
  fun_induction lexemes true source with
  | case1 =>
      rw [lexemes_nil]
      exact .nil
  | case2 c rest ih =>
      obtain ⟨hstep, hafter⟩ := @coarsens_lexStep c rest (holdsSplit_tail h)
      have hsuffix : (lexStep true c rest).2 <:+ c :: rest := ⟨_, join_lexStep true c rest⟩
      rw [lexemes_cons false, ← hafter]
      exact hstep.append (ih (holdsSplit_eq_false_of_isInfix hsuffix.isInfix h))

/-- Without `><` documents are laid out alike, guarded or not. -/
theorem reflow_guardLiterals_eq {source : String} (h : holdsSplit source.toList = false)
    (options : ReflowOptions) :
    reflow { options with guardLiterals := true } source =
      reflow { options with guardLiterals := false } source := by
  have hmark : holdsSplit (dropMark source.toList) = false :=
    holdsSplit_eq_false_of_isInfix (isSuffix_dropMark source.toList).isInfix h
  have hfragments : fragments true (dropMark source.toList) =
      fragments false (dropMark source.toList) := by
    rw [fragments_eq_linesOf, fragments_eq_linesOf, linesOf_guarded_eq_iff]
    exact unsplit_of_holdsSplit hmark
  rw [reflow, reflow, hfragments]

/-- Guarding literals matters only where `><` stands.  In any other text documents are laid out
alike; the guarded tokens have no boundary that the others lack; and the frames of the tags are
the same tokens. -/
theorem guardLiterals_of_no_split {source : String} (h : ¬['>', '<'] <:+: source.toList) :
    (∀ options : ReflowOptions, reflow { options with guardLiterals := true } source =
        reflow { options with guardLiterals := false } source) ∧
      (∀ token ∈ tokenize true source, IsBoundary (tokenize false source) token.start ∧
        IsBoundary (tokenize false source) token.stop) ∧
      (tokenize true source).filter (fun token => token.kind.isFrame) =
        (tokenize false source).filter fun token => token.kind.isFrame := by
  have hsplit : holdsSplit source.toList = false := by
    rwa [Bool.eq_false_iff, Ne, holdsSplit_iff]
  have hcoarse := coarsens_lexemes hsplit
  refine ⟨reflow_guardLiterals_eq hsplit, ?_, hcoarse.filter_isFrame 0⟩
  intro token htoken
  exact ⟨hcoarse.isBoundary ⟨token, htoken, .inl rfl⟩, hcoarse.isBoundary ⟨token, htoken, .inr rfl⟩⟩

/-- A blank in a value: the guarded value is what the others cut into three. -/
theorem guardLiterals_of_no_split_value :
    (tokenize true "<a t=\x22x y\x22>").map Token.text =
        ["<", "a", " ", "t", "=", "\x22x y\x22", ">"] ∧
      (tokenize false "<a t=\x22x y\x22>").map Token.text =
        ["<", "a", " ", "t", "=", "\x22x", " ", "y\x22", ">"] ∧
      (∀ token ∈ tokenize true "<a t=\x22x y\x22>",
        IsBoundary (tokenize false "<a t=\x22x y\x22>") token.start ∧
          IsBoundary (tokenize false "<a t=\x22x y\x22>") token.stop) ∧
      (tokenize true "<a t=\x22x y\x22>").filter (fun token => token.kind.isFrame) =
        (tokenize false "<a t=\x22x y\x22>").filter fun token => token.kind.isFrame := by
  have h := @guardLiterals_of_no_split "<a t=\x22x y\x22>" (by decide +kernel)
  exact ⟨by decide +kernel, by decide +kernel, h.2⟩

end Markup

end PrettyMarkup
