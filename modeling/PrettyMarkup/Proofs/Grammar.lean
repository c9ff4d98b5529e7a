import PrettyMarkup.Markup.Grammar
import PrettyMarkup.Proofs.StartTags

/-!
# Lexemes are words of the grammar

Each scanner of the lexer writes one rule of the grammar: an attribute is cut at its first equals
sign and ends in front of a gap, a comment ends at the first `-->` behind its opener, and a tag
has the lexemes of its form.  So the lexemes of any text are a stream.  That no character data
stands side by side is read off the grammar, not off the lexer.
-/

namespace PrettyMarkup

namespace Markup

open Text

variable {guard : Bool}

/-! ## Attributes -/

/-- No blank stands in front of the first equals sign of an attribute: only a quote behind such a
sign opens a value that may hold blanks. -/
theorem isBlank_of_mem_takeWhile_attributeLength {rest : List Char} {c : Char}
    (h : c ∈ (rest.take (attributeLength guard .outside rest)).takeWhile (· != '=')) :
    isBlank c = false := by
  induction rest with
  | nil => simp at h
  | cons d rest ih =>
      rw [attributeLength] at h
      split at h
      · simp at h
      · rename_i hgo
        have hd : isBlank d = false := by simpa [QuoteState.outside] using hgo
        rw [List.take_succ_cons] at h
        by_cases hequals : d = '='
        · simp [hequals] at h
        · rw [QuoteState.outside_next hequals, List.takeWhile_cons_of_pos (by simpa using hequals),
            List.mem_cons] at h
          rcases h with rfl | h
          · exact hd
          · exact ih h

theorem isBlank_of_mem_takeWhile_attribute {c d : Char} (hc : isBlank c = false)
    {rest : List Char}
    (h : d ∈ (c :: rest.take (attributeLength guard (QuoteState.outside.next c) rest)).takeWhile
      (· != '=')) : isBlank d = false := by
  by_cases hequals : c = '='
  · simp [hequals] at h
  · rw [QuoteState.outside_next hequals, List.takeWhile_cons_of_pos (by simpa using hequals),
      List.mem_cons] at h
    rcases h with rfl | h
    · exact hc
    · exact isBlank_of_mem_takeWhile_attributeLength h

/-- What an attribute does not hold starts with a blank. -/
theorem isBlank_of_mem_head?_drop_attributeLength {state : QuoteState} {rest : List Char} {c : Char}
    (h : c ∈ (rest.drop (attributeLength guard state rest)).head?) : isBlank c = true := by
  induction rest generalizing state with
  | nil => simp at h
  | cons d rest ih =>
      rw [attributeLength] at h
      split at h
      · rename_i hstop
        obtain rfl : d = c := by simpa using h
        exact (Bool.and_eq_true_iff.1 hstop).1
      · rw [List.drop_succ_cons] at h
        exact ih h

/-- A stretch without blanks in front of its first equals sign is cut into an attribute. -/
theorem isAttribute_attributeLexemes {written : List Char} (hne : written ≠ [])
    (hblank : ∀ c ∈ written.takeWhile (· != '='), isBlank c = false) :
    IsAttribute (attributeLexemes written) := by
  have hword : ∀ name, name = written.takeWhile (· != '=') → name ≠ [] → IsWord name := by
    rintro name rfl hname
    refine ⟨hname, fun c hc => ⟨hblank c hc, ?_⟩⟩
    simpa using List.mem_takeWhile_imp hc
  have hcut := List.takeWhile_append_dropWhile (p := (· != '=')) (l := written)
  rw [attributeLexemes_eq]
  split
  · rename_i hnone
    rcases hnone with hname | hvalue
    · -- Nothing stands in front of the first equals sign.
      rw [hname, List.nil_append] at hcut
      obtain ⟨c, rest, rfl⟩ := List.exists_cons_of_ne_nil hne
      rw [eq_of_dropWhile_equals hcut]
      exact .equals rest
    · rw [hvalue, List.append_nil] at hcut
      exact .name (hword written hcut.symm hne)
  · rename_i hboth
    rw [not_or] at hboth
    exact .value (hword _ rfl hboth.1) _

/-- Where gaps and attributes start with a blank they start with a gap; and behind a gap they may
start with an attribute. -/
theorem isAttributeList_gapsAndAttributes (guard : Bool) (body : List Char) :
    ((∀ c ∈ body.head?, isBlank c = true) → IsAttributeList (gapsAndAttributes guard body)) ∧
      ((∀ c ∈ body.head?, isBlank c = false) → ∀ gap, IsGap gap →
        IsAttributeList (⟨.text, gap⟩ :: gapsAndAttributes guard body)) := by
  fun_induction gapsAndAttributes guard body with
  | case1 => exact ⟨fun _ => .nil, fun _ _ hgap => .gap hgap⟩
  | case2 c rest hc ih =>
      refine ⟨fun _ => ?_, fun hhead => ?_⟩
      · apply ih.2 fun d hd => eq_false_of_mem_head?_dropWhile isBlank rest hd
        refine ⟨by simp, List.forall_mem_cons.2 ⟨hc, fun d hd => ?_⟩⟩
        exact List.mem_takeWhile_imp hd
      · have hnot := hhead c (by simp)
        simp [hc] at hnot
  | case3 c rest hc n ih =>
      refine ⟨fun hhead => absurd (hhead c (by simp)) hc, fun _ gap hgap => ?_⟩
      have hattribute : IsAttribute (attributeLexemes (c :: rest.take n)) :=
        isAttribute_attributeLexemes (by simp) fun d =>
          isBlank_of_mem_takeWhile_attribute (by simpa using hc)
      exact .cons hgap hattribute
        (ih.1 fun d hd => isBlank_of_mem_head?_drop_attributeLength hd)

/-! ## Comments -/

/-- A comment is cut behind its first `-->`, or not at all. -/
theorem splitComment_cases (rest : List Char) :
    (splitComment rest = (rest, []) ∧ ¬commentClose <:+: rest) ∨
      ∃ inside, (splitComment rest).1 = inside ++ commentClose ∧
        ∀ before after, inside ++ commentClose = before ++ commentClose ++ after → after = [] := by
  have hsplit := Scan.splitComment_eq true rest
  rw [lexGuards_true] at hsplit
  cases hcut : Scan.cut? (uniform true) (.start .comment) rest with
  | none =>
      rw [hcut] at hsplit
      refine .inl ⟨hsplit, ?_⟩
      exact Scan.not_closer_infix_of_cut? (.inl rfl) rfl hcut
  | some cut =>
      obtain ⟨inside, after⟩ := cut
      obtain ⟨front, rfl, hfirst⟩ := Scan.exists_closer_of_cut? (.inl rfl) rfl hcut
      rw [hcut] at hsplit
      exact .inr ⟨front, by rw [hsplit]; rfl, hfirst⟩

theorem isClosedComment_append {inside : List Char}
    (h : ∀ before after, inside ++ commentClose = before ++ commentClose ++ after → after = []) :
    IsClosedComment (commentOpen ++ (inside ++ commentClose)) where
  opens := List.prefix_append _ _
  closes := (List.suffix_append _ _).trans (List.suffix_append _ _)
  seven_le := by
    have hopen : byteSize commentOpen = 4 := by decide
    have hclose : byteSize commentClose = 3 := by decide
    rw [byteSize_append, byteSize_append]
    omega
  eq_nil_of_eq_append := by
    intro before after heq hfour
    rw [List.append_assoc before] at heq
    obtain ⟨front, -, hrest⟩ := exists_append_of_byteSize_le heq hfour
    exact h front after (by rw [hrest, List.append_assoc])

theorem isOpenComment_append {inside : List Char} (h : ¬commentClose <:+: inside) :
    IsOpenComment (commentOpen ++ inside) where
  opens := List.prefix_append _ _
  lt_four_of_eq_append := by
    intro before after heq
    by_contra hfour
    rw [List.append_assoc before] at heq
    obtain ⟨front, -, hrest⟩ := exists_append_of_byteSize_le heq (Nat.le_of_not_lt hfour)
    exact h ⟨front, after, by rw [hrest, List.append_assoc]⟩

section CutComment

variable {guards : Region → Bool} (hguard : guards .comment = true)
  {source comment after : List Char} (hopen : commentOpen <+: source)

include hguard hopen

/-- A comment that is cut off is closed. -/
theorem isClosedComment_of_cutTag? (h : cutTag? guards source = some (comment, after)) :
    IsClosedComment comment := by
  obtain ⟨text, rfl⟩ := hopen
  obtain ⟨inside, rfl, hcut⟩ := exists_cut?_of_cutTag?_opener (ofTagStart_commentOpen text) h
  obtain ⟨front, rfl, hfirst⟩ := Scan.exists_closer_of_cut? (.inl rfl) hguard hcut
  exact isClosedComment_append hfirst

/-- A comment that has no end is open. -/
theorem isOpenComment_of_cutTag? (h : cutTag? guards source = none) : IsOpenComment source := by
  obtain ⟨text, rfl⟩ := hopen
  have hcut := (cutTag?_opener_eq_none_iff (ofTagStart_commentOpen text)).1 h
  exact isOpenComment_append (Scan.not_closer_infix_of_cut? (.inl rfl) hguard hcut)

end CutComment

/-! ## Tags -/

/-- The form of a tag says how its body starts. -/
theorem TagForm.ofBody_cases (body : List Char) :
    (∃ rest, body = '?' :: rest ∧ ofBody body = instruction) ∨
      (∃ name, body = '/' :: name ∧ ofBody body = closing) ∨
      (StartsOpeningTag body ∧ ofBody body = opening) := by
  by_cases hquestion : body.head? = some '?'
  · obtain ⟨rest, rfl⟩ := List.head?_eq_some_iff.1 hquestion
    exact .inl ⟨rest, rfl, rfl⟩
  · by_cases hslash : body.head? = some '/'
    · obtain ⟨name, rfl⟩ := List.head?_eq_some_iff.1 hslash
      exact .inr (.inl ⟨name, rfl, rfl⟩)
    · exact .inr (.inr ⟨⟨hslash, hquestion⟩, by simp [ofBody, hquestion, hslash]⟩)

theorem StartsOpeningTag.of_isPrefix {name body : List Char} (h : StartsOpeningTag body)
    (hfront : name <+: body) : StartsOpeningTag name := by
  obtain ⟨rest, rfl⟩ := hfront
  cases name with
  | nil => exact ⟨by simp, by simp⟩
  | cons c name => exact h

theorem isTag_nameAndAttributes {body bracket : List Char} (hstart : StartsOpeningTag body)
    (hbracket : bracket = ['>'] ∨ bracket = ['/', '>']) :
    IsTag
      (⟨.bracketOpen, ['<']⟩ :: (nameAndAttributes guard body ++ [⟨.bracketClose, bracket⟩])) := by
  refine .opening (hstart.of_isPrefix (List.takeWhile_prefix _)) ?_ ?_ hbracket
  · intro c hc
    simpa using List.mem_takeWhile_imp hc
  · apply (isAttributeList_gapsAndAttributes guard _).1
    intro c hc
    simpa using eq_false_of_mem_head?_dropWhile (fun d => !isBlank d) body hc

/-- The lexemes of a body that ends make up a tag with its `<`. -/
theorem isTag_endedBody (guard : Bool) (body : List Char) :
    IsTag (⟨.bracketOpen, ['<']⟩ :: endedBody guard body) := by
  rcases TagForm.ofBody_cases body with ⟨rest, rfl, hform⟩ | ⟨name, rfl, hform⟩ | ⟨hstart, hform⟩
  · rw [endedBody, hform]
    exact .instruction rest
  · rw [endedBody, hform]
    exact .closing name
  · rw [endedBody, hform]
    dsimp only
    split
    · exact isTag_nameAndAttributes (hstart.of_isPrefix (List.dropLast_prefix body)) (.inr rfl)
    · exact isTag_nameAndAttributes hstart (.inl rfl)

/-- A body without end is one lexeme. -/
theorem isTruncated_ofChars {body : List Char} (hend : findTagEnd guard body = none) :
    IsTruncated guard
      (⟨.bracketOpen, ['<']⟩ :: Lexeme.ofChars (TagForm.ofBody body).bodyKind body) := by
  rcases TagForm.ofBody_cases body with ⟨rest, rfl, hform⟩ | ⟨name, rfl, hform⟩ | ⟨hstart, hform⟩
  · rw [hform]
    exact .instruction hend
  · rw [hform]
    exact .closing hend
  · rw [hform]
    exact .opening hstart hend

/-! ## Whole texts -/

/-- A text that starts with a tag does not start with character data. -/
theorem kind_ne_text_of_mem_head?_lexemes {source : List Char}
    (hsource : ∀ c ∈ source.head?, c = '<') {next : Lexeme}
    (h : next ∈ (lexemes guard source).head?) : next.kind ≠ .text := by
  cases source with
  | nil => simp at h
  | cons c rest =>
      obtain rfl : c = '<' := hsource c (by simp)
      rw [lexemes_cons, lexStep, if_pos (by rfl)] at h
      split at h
      · obtain rfl : _ = next := by simpa [lexComment] using h
        simp
      · obtain rfl : _ = next := by simpa using h
        simp

theorem isStream_lexComment {rest : List Char}
    (h : IsStream guard (lexemes guard (lexComment rest).2)) :
    IsStream guard ((lexComment rest).1 ++ lexemes guard (lexComment rest).2) := by
  rcases splitComment_cases rest with ⟨hsplit, hnone⟩ | ⟨inside, hsplit, hlast⟩
  · rw [lexComment, hsplit, lexemes_nil, List.append_nil]
    exact .truncated (.comment (isOpenComment_append hnone))
  · refine .tag ?_ h
    rw [lexComment, hsplit]
    exact .comment (isClosedComment_append hlast)

theorem isStream_lexTagBody {body : List Char}
    (h : IsStream guard (lexemes guard (lexTagBody guard body).2)) :
    IsStream guard
      (⟨.bracketOpen, ['<']⟩ :: (lexTagBody guard body).1 ++
        lexemes guard (lexTagBody guard body).2) := by
  cases hend : findTagEnd guard body with
  | none =>
      rw [lexTagBody, hend, lexemes_nil, List.append_nil]
      exact .truncated (isTruncated_ofChars hend)
  | some n =>
      refine .tag ?_ h
      rw [lexTagBody, hend]
      exact isTag_endedBody guard _

/-- Character data goes on up to a `<`. -/
theorem isStream_data {c : Char} {rest : List Char} (hc : c ≠ '<')
    (h : IsStream guard (lexemes guard (rest.dropWhile (· != '<')))) :
    IsStream guard
      (⟨.text, c :: rest.takeWhile (· != '<')⟩ :: lexemes guard (rest.dropWhile (· != '<'))) := by
  refine .data (by simp) ?_ (fun next => kind_ne_text_of_mem_head?_lexemes ?_) h
  · intro hmem
    rcases List.mem_cons.1 hmem with hlt | hlt
    · exact hc hlt.symm
    · simpa using List.mem_takeWhile_imp hlt
  · intro d hd
    simpa using eq_false_of_mem_head?_dropWhile (· != '<') rest hd

/-- A step of the lexer writes the next item of a stream. -/
theorem isStream_lexStep {c : Char} {rest : List Char}
    (h : IsStream guard (lexemes guard (lexStep guard c rest).2)) :
    IsStream guard ((lexStep guard c rest).1 ++ lexemes guard (lexStep guard c rest).2) := by
  revert h
  rw [lexStep]
  split
  · split
    · exact isStream_lexComment
    · exact isStream_lexTagBody
  · rename_i hc
    exact isStream_data (by simpa using hc)

/-- The lexemes of any text are a stream. -/
theorem isStream_lexemes (guard : Bool) (source : List Char) :
    IsStream guard (lexemes guard source) := by
  fun_induction lexemes guard source with
  | case1 => exact .nil
  | case2 c rest ih => exact isStream_lexStep ih

/-! ## Character data -/

/-- Lexemes that are no character data may stand in front of any. -/
theorem DataApart.append {front rest : List Lexeme} (hfront : ∀ lexeme ∈ front, lexeme.kind ≠ .text)
    (h : DataApart rest) : DataApart (front ++ rest) := by
  induction front with
  | nil => exact h
  | cons lexeme front ih =>
      obtain ⟨hlexeme, hfront⟩ := List.forall_mem_cons.1 hfront
      exact List.isChain_cons.2 ⟨fun next _ hboth => hlexeme hboth.1, ih hfront⟩

theorem DataApart.cons_text {data : List Char} {rest : List Lexeme}
    (hrest : ∀ next ∈ rest.head?, next.kind ≠ .text) (h : DataApart rest) :
    DataApart (⟨.text, data⟩ :: rest) :=
  List.isChain_cons.2 ⟨fun next hnext hboth => hrest next hnext hboth.2, h⟩

theorem kind_ne_text_of_mem_ofChars {kind : Kind} (hkind : kind ≠ .text) {chars : List Char} :
    ∀ lexeme ∈ Lexeme.ofChars kind chars, lexeme.kind ≠ .text := by
  cases chars with
  | nil => simp [Lexeme.ofChars]
  | cons c chars => simpa [Lexeme.ofChars] using hkind

theorem IsAttribute.kind_ne_text {written : List Lexeme} (h : IsAttribute written) :
    written ≠ [] ∧ ∀ lexeme ∈ written, lexeme.kind ≠ .text := by
  cases h with
  | name h => simp
  | value h value =>
      refine ⟨by simp, List.forall_mem_cons.2 ⟨by simp, List.forall_mem_cons.2 ⟨by simp, ?_⟩⟩⟩
      exact kind_ne_text_of_mem_ofChars (by decide)
  | equals rest => simp

/-- Each gap stands in front of an attribute, or at the end. -/
theorem IsAttributeList.dataApart_append {attributes rest : List Lexeme}
    (h : IsAttributeList attributes) (hhead : ∀ next ∈ rest.head?, next.kind ≠ .text)
    (hrest : DataApart rest) : DataApart (attributes ++ rest) := by
  induction h with
  | nil => exact hrest
  | gap hgap => exact hrest.cons_text hhead
  | cons hgap hwritten hattributes ih =>
      obtain ⟨hne, hkind⟩ := hwritten.kind_ne_text
      rw [List.cons_append, List.append_assoc]
      refine DataApart.cons_text ?_ (ih.append hkind)
      intro next hnext
      rw [List.head?_append_of_ne_nil _ hne] at hnext
      exact hkind next (List.mem_of_mem_head? hnext)

theorem IsTag.dataApart_append {tag rest : List Lexeme} (h : IsTag tag) (hrest : DataApart rest) :
    DataApart (tag ++ rest) := by
  cases h with
  | comment h => exact hrest.append (by simp)
  | closing name => exact hrest.append (by simp)
  | instruction body => exact hrest.append (by simp)
  | @opening name bracket attributes hstart hname hattributes hbracket =>
      have hclose : DataApart ([⟨.bracketClose, bracket⟩] ++ rest) := hrest.append (by simp)
      have hlist := hattributes.dataApart_append (by simp) hclose
      have hkind : ∀ lexeme ∈ ⟨.bracketOpen, ['<']⟩ :: Lexeme.ofChars .tagOpenName name,
          lexeme.kind ≠ .text :=
        List.forall_mem_cons.2 ⟨by simp, kind_ne_text_of_mem_ofChars (by decide)⟩
      simpa using hlist.append hkind

theorem IsTruncated.dataApart {last : List Lexeme} (h : IsTruncated guard last) :
    DataApart last := by
  have hkind : ∀ lexeme ∈ last, lexeme.kind ≠ .text := by
    cases h with
    | comment h => simp
    | closing h => simp
    | instruction h => simp
    | opening hstart hend =>
        exact List.forall_mem_cons.2 ⟨by simp, kind_ne_text_of_mem_ofChars (by decide)⟩
  simpa using DataApart.append hkind List.isChain_nil

/-- In a stream character data is never followed by character data. -/
theorem IsStream.dataApart {stream : List Lexeme} (h : IsStream guard stream) :
    DataApart stream := by
  induction h with
  | nil => exact .nil
  | truncated h => exact h.dataApart
  | data hne hlt hnext hrest ih => exact ih.cons_text hnext
  | tag h hrest ih => exact h.dataApart_append ih

theorem map_lexeme_place (start : Nat) (lexemes : List Lexeme) :
    (Lexeme.place start lexemes).map Token.lexeme = lexemes := by
  induction lexemes generalizing start with
  | nil => rfl
  | cons lexeme rest ih => simp [Lexeme.place, Token.lexeme, ih]

/-- The tokens of every text are a word of the grammar, in which no character data stands side by
side. -/
theorem isStream_tokenize (guard : Bool) (source : String) :
    IsStream guard ((tokenize guard source).map Token.lexeme) ∧
      DataApart ((tokenize guard source).map Token.lexeme) := by
  have hstream := isStream_lexemes guard source.toList
  rw [tokenize, map_lexeme_place]
  exact ⟨hstream, hstream.dataApart⟩

end Markup

end PrettyMarkup
