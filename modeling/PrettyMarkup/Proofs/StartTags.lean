import PrettyMarkup.Markup.StartTag
import PrettyMarkup.Proofs.RespacedTags

/-!
# Printed start tags

A start tag that is well formed is cut into its parts, whatever its values hold and whatever
stands behind it.  Two scanners have to agree on that: the search for the end of a tag goes over
every printed part and stands outside a value behind it (`IsPassed`), and the search for the end of
an attribute goes on to the closing quote of its value.

## Implementation notes

The texts that are passed can be put together, so tags of other forms are found by the same laws.
-/

namespace PrettyMarkup

namespace Markup

open Text

/-! ## Quotes -/

theorem isBlank_of_isQuote {quote : Char} (h : isQuote quote = true) : isBlank quote = false := by
  cases hblank : isBlank quote with
  | false => rfl
  | true => rw [isQuote_of_isBlank hblank] at h; exact absurd h (by simp)

theorem ne_of_isQuote {quote c : Char} (h : isQuote quote = true) (hc : isQuote c = false) :
    quote ≠ c := by
  rintro rfl
  rw [hc] at h
  simp at h

namespace QuoteState

theorem outside_next {c : Char} (h : c ≠ '=') : outside.next c = outside := by
  simp [next, outside, h]

theorem outside_after {text : List Char} (h : '=' ∉ text) : outside.after text = outside := by
  induction text with
  | nil => rfl
  | cons c text ih =>
      rw [List.mem_cons, not_or] at h
      rw [after_cons, outside_next (Ne.symm h.1), ih h.2]

/-- A quote behind an equals sign opens a value. -/
theorem outside_next_equals_quote {quote : Char} (h : isQuote quote = true) :
    (outside.next '=').next quote = ⟨some quote, false⟩ := by
  have hequals : quote ≠ '=' := ne_of_isQuote h (by decide)
  simp [next, outside, h, hequals]

theorem next_of_ne {quote c : Char} (h : c ≠ quote) (afterEquals : Bool) :
    (⟨some quote, afterEquals⟩ : QuoteState).next c = ⟨some quote, c == '='⟩ := by
  simp [next, h]

/-- The same quote closes the value. -/
theorem next_quote {quote : Char} (h : isQuote quote = true) (afterEquals : Bool) :
    (⟨some quote, afterEquals⟩ : QuoteState).next quote = outside := by
  have hequals : quote ≠ '=' := ne_of_isQuote h (by decide)
  simp [next, outside, hequals]

end QuoteState

/-! ## The end of a tag -/

/-- A text that the search for the end of a tag goes over, from outside a value to outside one. -/
def IsPassed (guard : Bool) (text : List Char) : Prop :=
  ∀ rest, findPlainEnd guard .outside (text ++ rest) =
    (findPlainEnd guard .outside rest).map (· + text.length)

section IsPassed

variable {guard : Bool}

theorem isPassed_nil : IsPassed guard [] := by
  intro rest
  simp

theorem IsPassed.append {s t : List Char} (hs : IsPassed guard s) (ht : IsPassed guard t) :
    IsPassed guard (s ++ t) := by
  intro rest
  rw [List.append_assoc, hs, ht, Option.map_map, List.length_append]
  congr 1
  funext n
  simp only [Function.comp_apply]
  omega

theorem isPassed_flatMap {α : Type} {parts : List α} {print : α → List Char}
    (h : ∀ part ∈ parts, IsPassed guard (print part)) : IsPassed guard (parts.flatMap print) := by
  induction parts with
  | nil => exact isPassed_nil
  | cons part parts ih =>
      obtain ⟨hpart, hparts⟩ := List.forall_mem_cons.1 h
      rw [List.flatMap_cons]
      exact hpart.append (ih hparts)

/-- A character that neither ends a tag nor starts a value is passed. -/
theorem isPassed_singleton {c : Char} (hgt : c ≠ '>') (hequals : c ≠ '=') :
    IsPassed guard [c] := by
  intro rest
  rw [List.singleton_append, findPlainEnd, if_neg (by simp [hgt]),
    QuoteState.outside_next hequals]
  rfl

theorem isPassed_of_forall {text : List Char} (h : ∀ c ∈ text, c ≠ '>' ∧ c ≠ '=') :
    IsPassed guard text := by
  rw [← List.flatMap_singleton' text]
  apply isPassed_flatMap
  intro c hc
  exact isPassed_singleton (h c hc).1 (h c hc).2

theorem isPassed_of_allBlank {text : List Char} (h : AllBlank text) : IsPassed guard text := by
  apply isPassed_of_forall
  intro c hc
  exact ⟨ne_of_isBlank (h c hc) (by decide), ne_of_isBlank (h c hc) (by decide)⟩

theorem ne_of_isNameChar {c : Char} (h : isNameChar c = true) :
    isBlank c = false ∧ c ≠ '>' ∧ c ≠ '/' ∧ c ≠ '=' := by
  simp only [isNameChar, Bool.and_eq_true, Bool.not_eq_true', bne_iff_ne] at h
  obtain ⟨⟨⟨⟨⟨hblank, -⟩, -⟩, hgt⟩, hslash⟩, hequals⟩ := h
  exact ⟨hblank, hgt, hslash, hequals⟩

theorem IsName.isPassed {name : List Char} (h : IsName name) : IsPassed guard name := by
  apply isPassed_of_forall
  intro c hc
  obtain ⟨-, hgt, -, hequals⟩ := ne_of_isNameChar (h.2 c hc)
  exact ⟨hgt, hequals⟩

/-- A value is passed up to its closing quote, if it is not split. -/
theorem findPlainEnd_value {quote : Char} (hquote : isQuote quote = true) {value : List Char}
    (hvalue : quote ∉ value) (hsplit : guard = false → holdsSplit value = false)
    (afterEquals : Bool) (rest : List Char) :
    findPlainEnd guard ⟨some quote, afterEquals⟩ (value ++ quote :: rest) =
      (findPlainEnd guard .outside rest).map (· + (value.length + 1)) := by
  have hlt : quote ≠ '<' := ne_of_isQuote hquote (by decide)
  have hgt : quote ≠ '>' := ne_of_isQuote hquote (by decide)
  induction value generalizing afterEquals with
  | nil =>
      rw [List.nil_append, findPlainEnd, if_neg (by simp [hgt]), QuoteState.next_quote hquote]
      rfl
  | cons c value ih =>
      rw [List.mem_cons, not_or] at hvalue
      simp only [holdsSplit_cons, Bool.or_eq_false_iff] at hsplit
      have hgo : (c == '>' && splitsLiteral guard (value ++ quote :: rest)) = false := by
        cases hguard : guard with
        | true => simp
        | false =>
            have hmeets := (hsplit hguard).1
            cases value with
            | nil => simp [splitsLiteral, meetsTag, hlt]
            | cons d value => simpa [splitsLiteral, meetsTag] using hmeets
      rw [List.cons_append, findPlainEnd, if_neg (by simpa using hgo),
        QuoteState.next_of_ne (Ne.symm hvalue.1), ih hvalue.2 (fun hguard => (hsplit hguard).2),
        Option.map_map]
      rfl

theorem Attribute.isPassed_print {a : Attribute} (h : a.WellFormed)
    (hsplit : guard = false → holdsSplit a.value = false) : IsPassed guard a.print := by
  obtain ⟨hname, hquote, hvalue⟩ := h
  apply hname.isPassed.append
  intro rest
  have hgt : a.quote ≠ '>' := ne_of_isQuote hquote (by decide)
  have hcat : '=' :: a.printValue ++ rest =
      '=' :: a.quote :: (a.value ++ a.quote :: rest) := by
    simp [Attribute.printValue]
  rw [hcat, findPlainEnd, if_neg (by simp), findPlainEnd, if_neg (by simp [hgt]),
    QuoteState.outside_next_equals_quote hquote, findPlainEnd_value hquote hvalue hsplit,
    Option.map_map, Option.map_map]
  congr 1
  funext n
  simp only [Function.comp_apply, Attribute.printValue, List.length_cons, List.length_append,
    List.length_nil]
  omega

/-- A body without `!` at its front is that of no comment and no CDATA section. -/
theorem isPrefixOf_bodyOpen {body : List Char} (h : body.head? ≠ some '!') (rest : List Char) :
    commentBodyOpen.isPrefixOf (body ++ '>' :: rest) = false ∧
      cdataBodyOpen.isPrefixOf (body ++ '>' :: rest) = false := by
  have hhead : (body ++ '>' :: rest).head? ≠ some '!' := by
    cases body with
    | nil => simp
    | cons c body => exact h
  exact ⟨isPrefixOf_eq_false hhead _, isPrefixOf_eq_false hhead _⟩

/-- A tag ends behind a body that is passed. -/
theorem IsPassed.findTagEnd_eq {body : List Char} (h : IsPassed guard body)
    (hbody : body.head? ≠ some '!') (rest : List Char) :
    findTagEnd guard (body ++ '>' :: rest) = some body.length := by
  rw [findTagEnd, (isPrefixOf_bodyOpen hbody rest).2, if_neg (by simp), h, findPlainEnd,
    if_pos (by rfl)]
  simp

/-- So the tag is cut off there, whatever follows it. -/
theorem IsPassed.cutTag?_eq {body : List Char} (h : IsPassed guard body)
    (hbody : body.head? ≠ some '!') (rest : List Char) :
    cutTag? (lexGuards guard) ('<' :: (body ++ '>' :: rest)) =
      some ('<' :: (body ++ ['>']), rest) := by
  rw [cutTag?_eq_findTagEnd guard (isPrefixOf_bodyOpen hbody rest).1, h.findTagEnd_eq hbody,
    Option.map_some, List.take_length_add_append, List.drop_length_add_append]
  rfl

end IsPassed

/-! ## The end of an attribute -/

section AttributeLength

variable {guard : Bool}

/-- An attribute goes on over what is not blank. -/
theorem attributeLength_append {text : List Char} (h : ∀ c ∈ text, isBlank c = false)
    (state : QuoteState) (rest : List Char) :
    attributeLength guard state (text ++ rest) =
      attributeLength guard (state.after text) rest + text.length := by
  induction text generalizing state with
  | nil => rfl
  | cons c text ih =>
      obtain ⟨hc, htext⟩ := List.forall_mem_cons.1 h
      rw [List.cons_append, attributeLength, if_neg (by simp [hc]), ih htext,
        QuoteState.after_cons, List.length_cons, Nat.add_assoc]

/-- It goes on over a value to its closing quote, if blanks do not count in it or it has none. -/
theorem attributeLength_value {quote : Char} (hquote : isQuote quote = true) {value : List Char}
    (hvalue : quote ∉ value) (hblank : guard = false → ∀ c ∈ value, isBlank c = false)
    (afterEquals : Bool) (rest : List Char) :
    attributeLength guard ⟨some quote, afterEquals⟩ (value ++ quote :: rest) =
      attributeLength guard .outside rest + (value.length + 1) := by
  induction value generalizing afterEquals with
  | nil =>
      rw [List.nil_append, attributeLength, if_neg (by simp [isBlank_of_isQuote hquote]),
        QuoteState.next_quote hquote]
      rfl
  | cons c value ih =>
      rw [List.mem_cons, not_or] at hvalue
      have hgo : (isBlank c && !guard) = false := by
        cases hguard : guard with
        | true => simp
        | false => simp [hblank hguard c (by simp)]
      rw [List.cons_append, attributeLength, if_neg (by simpa using hgo),
        QuoteState.next_of_ne (Ne.symm hvalue.1),
        ih hvalue.2 fun hguard d hd => hblank hguard d (List.mem_cons_of_mem c hd)]
      simp only [List.length_cons]
      omega

/-- Blanks and the end of the text end an attribute outside a value. -/
theorem attributeLength_outside {rest : List Char} (h : ∀ c ∈ rest.head?, isBlank c = true) :
    attributeLength guard .outside rest = 0 := by
  cases rest with
  | nil => rfl
  | cons c rest =>
      have hc : isBlank c = true := h c (by simp)
      rw [attributeLength, if_pos (by simp [hc, QuoteState.outside])]

end AttributeLength

/-! ## Gaps and attributes -/

/-- A printed attribute is cut at the equals sign behind its name. -/
theorem Attribute.attributeLexemes_print {a : Attribute} (h : IsName a.name) :
    attributeLexemes a.print = a.lexemes := by
  have hname : ∀ c ∈ a.name, c ≠ '=' := by
    intro c hc
    obtain ⟨-, -, -, hequals⟩ := ne_of_isNameChar (h.2 c hc)
    exact hequals
  rw [Attribute.print, attributeLexemes_value h.1 hname]
  rfl

section GapsAndAttributes

variable {guard : Bool}

theorem gapsAndAttributes_gap_append {gap : List Char} (h : IsGap gap) {rest : List Char}
    (hrest : ∀ c ∈ rest.head?, isBlank c = false) :
    gapsAndAttributes guard (gap ++ rest) = ⟨.text, gap⟩ :: gapsAndAttributes guard rest := by
  obtain ⟨c, gap, rfl⟩ := List.exists_cons_of_ne_nil h.1
  obtain ⟨hc, hgap⟩ := List.forall_mem_cons.1 h.2
  obtain ⟨htake, hdrop⟩ := takeWhile_dropWhile_append hgap hrest
  rw [List.cons_append, gapsAndAttributes_gap hc, htake, hdrop]

/-- A printed attribute is cut off in front of a gap, and at the end. -/
theorem gapsAndAttributes_print_append {a : Attribute} (h : a.WellFormed)
    (hblank : guard = false → ∀ c ∈ a.value, isBlank c = false) {rest : List Char}
    (hrest : ∀ c ∈ rest.head?, isBlank c = true) :
    gapsAndAttributes guard (a.print ++ rest) = a.lexemes ++ gapsAndAttributes guard rest := by
  obtain ⟨hname, hquote, hvalue⟩ := h
  obtain ⟨c, name, hcat⟩ := List.exists_cons_of_ne_nil hname.1
  have hkept : ∀ d ∈ a.name, isBlank d = false ∧ d ≠ '=' := by
    intro d hd
    obtain ⟨hblank, -, -, hequals⟩ := ne_of_isNameChar (hname.2 d hd)
    exact ⟨hblank, hequals⟩
  rw [hcat, List.forall_mem_cons] at hkept
  have hplain : '=' ∉ name := fun hmem => (hkept.2 '=' hmem).2 rfl
  -- The attribute ends behind its closing quote.
  have hlength : attributeLength guard (QuoteState.outside.next c)
      (name ++ '=' :: a.printValue ++ rest) = (name ++ '=' :: a.printValue).length := by
    have hsplit : name ++ '=' :: a.printValue ++ rest =
        name ++ (['=', a.quote] ++ (a.value ++ a.quote :: rest)) := by
      simp [Attribute.printValue]
    have hopening : ∀ d ∈ ['=', a.quote], isBlank d = false := by
      simp [isBlank_of_isQuote hquote, show isBlank '=' = false by decide]
    rw [hsplit, attributeLength_append fun d hd => (hkept.2 d hd).1,
      QuoteState.outside_next hkept.1.2, QuoteState.outside_after hplain,
      attributeLength_append hopening, QuoteState.after_cons,
      QuoteState.after_cons, QuoteState.after_nil, QuoteState.outside_next_equals_quote hquote,
      attributeLength_value hquote hvalue hblank, attributeLength_outside hrest]
    simp only [Attribute.printValue, List.length_append, List.length_cons, List.length_nil]
    omega
  have hprint : a.print = c :: (name ++ '=' :: a.printValue) := by
    rw [Attribute.print, hcat]
    rfl
  rw [hprint, List.cons_append, gapsAndAttributes_attribute hkept.1.1, hlength, List.take_left,
    List.drop_left, ← hprint, Attribute.attributeLexemes_print hname]

/-- Attributes, each behind a gap, as they stand in a tag that ends with a gap or without one. -/
def printParts (parts : List (List Char × Attribute)) (trailing : List Char) : List Char :=
  parts.flatMap (fun (gap, a) => gap ++ a.print) ++ trailing

section PrintParts

variable {parts : List (List Char × Attribute)} {trailing : List Char}
  (htrailing : trailing = [] ∨ IsGap trailing)

include htrailing

/-- Behind a name or an attribute there is a gap, or nothing. -/
theorem isBlank_of_head?_printParts (h : ∀ part ∈ parts, IsGap part.1) {c : Char}
    (hc : c ∈ (printParts parts trailing).head?) : isBlank c = true := by
  cases parts with
  | nil =>
      rcases htrailing with rfl | htrailing
      · simp [printParts] at hc
      · exact htrailing.2 c (List.mem_of_mem_head? hc)
  | cons part parts =>
      obtain ⟨hne, hblank⟩ := h part (by simp)
      obtain ⟨d, gap, hcat⟩ := List.exists_cons_of_ne_nil hne
      obtain rfl : d = c := by simpa [printParts, hcat] using hc
      exact hblank d (by simp [hcat])

/-- A `/` at the end of attributes stood in front of them: they end with a blank or a quote. -/
theorem getLast?_append_printParts (h : ∀ part ∈ parts, part.2.WellFormed) {front : List Char}
    (hfront : front.getLast? ≠ some '/') :
    (front ++ printParts parts trailing).getLast? ≠ some '/' := by
  induction parts generalizing front with
  | nil =>
      rcases htrailing with rfl | htrailing
      · simpa [printParts] using hfront
      · intro hlast
        rw [printParts, List.flatMap_nil, List.nil_append,
          List.getLast?_append_of_ne_nil front htrailing.1] at hlast
        exact ne_of_isBlank (htrailing.2 '/' (List.mem_of_getLast? hlast)) (by decide) rfl
  | cons part parts ih =>
      obtain ⟨⟨-, hquote, -⟩, hparts⟩ := List.forall_mem_cons.1 h
      have hcat : front ++ printParts (part :: parts) trailing =
          front ++ part.1 ++ part.2.name ++ '=' :: part.2.quote :: part.2.value ++
            [part.2.quote] ++ printParts parts trailing := by
        simp [printParts, Attribute.print, Attribute.printValue]
      have hslash : part.2.quote ≠ '/' := ne_of_isQuote hquote (by decide)
      rw [hcat]
      apply ih hparts
      rwa [List.getLast?_concat, Ne, Option.some.injEq]

theorem gapsAndAttributes_printParts
    (h : ∀ part ∈ parts, IsGap part.1 ∧ part.2.WellFormed ∧
      (guard = false → ∀ c ∈ part.2.value, isBlank c = false)) :
    gapsAndAttributes guard (printParts parts trailing) =
      parts.flatMap (fun (gap, a) => ⟨.text, gap⟩ :: a.lexemes) ++
        Lexeme.ofChars .text trailing := by
  induction parts with
  | nil =>
      rcases htrailing with rfl | htrailing
      · simp [printParts, Lexeme.ofChars]
      · have hgap := @gapsAndAttributes_gap_append guard trailing htrailing [] (by simp)
        rw [List.append_nil, gapsAndAttributes_nil] at hgap
        simp [printParts, hgap, Lexeme.ofChars, htrailing.1]
  | cons part parts ih =>
      obtain ⟨⟨hgap, hattribute, hblank⟩, hparts⟩ := List.forall_mem_cons.1 h
      have hrest : ∀ c ∈ (printParts parts trailing).head?, isBlank c = true :=
        fun c => isBlank_of_head?_printParts htrailing fun part hpart => (hparts part hpart).1
      have hname : ∀ c ∈ (part.2.print ++ printParts parts trailing).head?, isBlank c = false := by
        intro c hc
        obtain ⟨d, name, hcat⟩ := List.exists_cons_of_ne_nil hattribute.1.1
        obtain rfl : d = c := by simpa [Attribute.print, hcat] using hc
        exact (ne_of_isNameChar (hattribute.1.2 d (by simp [hcat]))).1
      have hcat : printParts (part :: parts) trailing =
          part.1 ++ (part.2.print ++ printParts parts trailing) := by
        simp [printParts]
      rw [hcat, gapsAndAttributes_gap_append hgap hname,
        gapsAndAttributes_print_append hattribute hblank hrest, ih hparts]
      simp

end PrintParts

end GapsAndAttributes

/-! ## Whole tags -/

namespace StartTag

variable {guard : Bool} {tag : StartTag}

/-- What stands between the brackets of a tag, without the `/` of its closing bracket. -/
def inside (tag : StartTag) : List Char := tag.name ++ printParts tag.attributes tag.trailing

/-- What stands behind the `<` of a tag and in front of the `>`. -/
def body (tag : StartTag) : List Char := tag.inside ++ if tag.selfClosing then ['/'] else []

theorem print_eq (tag : StartTag) : tag.print = '<' :: (tag.body ++ ['>']) := by
  rw [print, body, inside, printParts, bracket]
  cases tag.selfClosing <;> simp

theorem WellFormed.exists_name (h : tag.WellFormed guard) :
    ∃ c name, tag.name = c :: name ∧ c ≠ '!' ∧ c ≠ '?' ∧ c ≠ '/' := by
  obtain ⟨hname, hbang, hquestion, -⟩ := h
  obtain ⟨c, name, hcat⟩ := List.exists_cons_of_ne_nil hname.1
  rw [hcat] at hbang hquestion
  refine ⟨c, name, hcat, ?_, ?_, ?_⟩
  · simpa using hbang
  · simpa using hquestion
  · exact (ne_of_isNameChar (hname.2 c (by simp [hcat]))).2.2.1

/-- What a tag holds is passed where no value is split, also if it holds blanks in its values. -/
theorem WellFormed.isPassed_inside {other : Bool} (h : tag.WellFormed other)
    (hsplit : guard = false → ∀ part ∈ tag.attributes, holdsSplit part.2.value = false) :
    IsPassed guard tag.inside := by
  obtain ⟨hname, -, -, hattributes, htrailing⟩ := h
  apply hname.isPassed.append
  apply IsPassed.append
  · apply isPassed_flatMap
    intro part hpart
    obtain ⟨hgap, hattribute, -⟩ := hattributes part hpart
    apply (isPassed_of_allBlank hgap.2).append
    exact Attribute.isPassed_print hattribute fun hguard => hsplit hguard part hpart
  · rcases htrailing with htrailing | htrailing
    · rw [htrailing]
      exact isPassed_nil
    · exact isPassed_of_allBlank htrailing.2

theorem isPassed_body (h : IsPassed guard tag.inside) : IsPassed guard tag.body := by
  apply h.append
  split
  · exact isPassed_singleton (by decide) (by decide)
  · exact isPassed_nil

/-- The name is cut off at the first gap. -/
theorem WellFormed.nameAndAttributes_inside (h : tag.WellFormed guard) :
    nameAndAttributes guard tag.inside =
      ⟨.tagOpenName, tag.name⟩ ::
        (tag.attributes.flatMap (fun (gap, a) => ⟨.text, gap⟩ :: a.lexemes) ++
          Lexeme.ofChars .text tag.trailing) := by
  obtain ⟨hname, -, -, hattributes, htrailing⟩ := h
  have hkept : ∀ c ∈ tag.name, (!isBlank c) = true := by
    intro c hc
    simp [(ne_of_isNameChar (hname.2 c hc)).1]
  have hgap : ∀ c ∈ (printParts tag.attributes tag.trailing).head?, (!isBlank c) = false := by
    intro c hc
    have hblank := isBlank_of_head?_printParts htrailing
      (fun part hpart => (hattributes part hpart).1) hc
    simp [hblank]
  obtain ⟨htake, hdrop⟩ := takeWhile_dropWhile_append hkept hgap
  rw [nameAndAttributes, inside, htake, hdrop, gapsAndAttributes_printParts htrailing]
  · simp [Lexeme.ofChars, hname.1]
  · intro part hpart
    obtain ⟨hgap, hattribute, hvalue⟩ := hattributes part hpart
    exact ⟨hgap, hattribute, fun hguard => (hvalue hguard).1⟩

theorem WellFormed.getLast?_inside (h : tag.WellFormed guard) :
    tag.inside.getLast? ≠ some '/' := by
  obtain ⟨hname, -, -, hattributes, htrailing⟩ := h
  apply getLast?_append_printParts htrailing fun part hpart => (hattributes part hpart).2.1
  intro hlast
  have hslash := (ne_of_isNameChar (hname.2 '/' (List.mem_of_getLast? hlast))).2.2.1
  exact hslash rfl

/-- The body of a tag is cut into the tag's parts. -/
theorem WellFormed.endedBody_body (h : tag.WellFormed guard) :
    ⟨.bracketOpen, ['<']⟩ :: endedBody guard tag.body = tag.lexemes := by
  obtain ⟨c, name, hcat, -, hquestion, hslash⟩ := h.exists_name
  have hform : TagForm.ofBody tag.body = .opening := by
    simp [TagForm.ofBody, body, inside, hcat, hquestion, hslash]
  have hinside := h.nameAndAttributes_inside
  rw [endedBody, hform]
  cases hself : tag.selfClosing with
  | true =>
      have hbody : tag.body = tag.inside ++ ['/'] := by simp [body, hself]
      simp [hbody, hinside, lexemes, bracket, hself]
  | false =>
      have hbody : tag.body = tag.inside := by simp [body, hself]
      simp [hbody, hinside, lexemes, bracket, hself, h.getLast?_inside]

theorem WellFormed.lexemes_print_append (h : tag.WellFormed guard) (rest : List Char) :
    Markup.lexemes guard (tag.print ++ rest) = tag.lexemes ++ Markup.lexemes guard rest := by
  obtain ⟨c, name, hcat, hbang, -, -⟩ := h.exists_name
  have hhead : tag.body.head? ≠ some '!' := by simp [body, inside, hcat, hbang]
  have hsource : tag.print ++ rest = '<' :: (tag.body ++ '>' :: rest) := by
    simp [print_eq]
  have hcomment : commentOpen.isPrefixOf ('<' :: (tag.body ++ ['>'])) = false := by
    rw [isPrefixOf_commentOpen]
    exact (isPrefixOf_bodyOpen hhead []).1
  have hpassed : IsPassed guard tag.body := by
    apply isPassed_body
    apply h.isPassed_inside
    intro hguard part hpart
    obtain ⟨-, -, -, hattributes, -⟩ := h
    exact ((hattributes part hpart).2.2 hguard).2
  rw [hsource, lexemes_tag rfl (hpassed.cutTag?_eq hhead rest), tagLexemes, hcomment,
    if_neg (by simp), List.tail_cons, List.dropLast_concat, h.endedBody_body]

end StartTag

/-- A well-formed start tag is cut into its parts, and the text behind it is cut as it is by
itself. -/
theorem tokenize_print_append {guard : Bool} {tag : StartTag} (h : tag.WellFormed guard)
    (rest : String) :
    tokenize guard (String.ofList tag.print ++ rest) =
      Lexeme.place 0 tag.lexemes ++
        (tokenize guard rest).map (Token.shift (byteSize tag.print)) := by
  rw [tokenize, String.toList_append, String.toList_ofList, h.lexemes_print_append,
    Lexeme.place_append, StartTag.join_lexemes, Nat.zero_add, ← Nat.add_zero (byteSize tag.print),
    Lexeme.place_add]
  rfl

/-- A guarded value keeps its blanks and brackets, and the character behind the tag has two
bytes. -/
theorem tokenize_print_append_value :
    ∃ tag : StartTag, tag.WellFormed true ∧
      String.ofList tag.print = "<a x=\x22b ><\x27/=\x22 />" ∧
      tokenize true ("<a x=\x22b ><\x27/=\x22 />" ++ "é<") =
        [⟨.bracketOpen, "<", 0, 1⟩, ⟨.tagOpenName, "a", 1, 2⟩, ⟨.text, " ", 2, 3⟩,
          ⟨.attributeName, "x", 3, 4⟩, ⟨.equals, "=", 4, 5⟩,
          ⟨.attributeValue, "\x22b ><\x27/=\x22", 5, 14⟩, ⟨.text, " ", 14, 15⟩,
          ⟨.bracketClose, "/>", 15, 17⟩, ⟨.text, "é", 17, 19⟩, ⟨.bracketOpen, "<", 19, 20⟩] := by
  have h : (StartTag.mk ['a'] [([' '], ⟨['x'], "b ><\x27/=".toList, '\x22'⟩)] [' '] true).WellFormed
      true := by decide
  refine ⟨_, h, by decide, (tokenize_print_append h "é<").trans ?_⟩
  decide +kernel

end Markup

end PrettyMarkup
