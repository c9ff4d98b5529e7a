import PrettyMarkup.Proofs.Grammar
import PrettyMarkup.Proofs.TagEnds
import PrettyMarkup.Proofs.TagStarts

/-!
# Quoted values are not cut

Quotes are counted twice in an opening tag.  The search for its end reads the body from its first
character to its `>`; the cut into attributes begins anew at every attribute, and reads a body
without its last `/`.  Guarded, the two never part: no lexeme of the tag starts where the search has
a quote open.

## Implementation notes

The invariant is one of lists of lexemes: the search has no quote open where one of them starts
(`StartOutside`).  It is carried from the front of the body on, with the state of the search left
open.  An attribute starts behind a blank, so that the search remembers nothing there and both
readers are in the same state.
-/

namespace PrettyMarkup

namespace Markup

open Text

/-- A tag of a text that is no comment and has an end: what stands in front of its `<`, its body up
to its `>`, and what stands behind that.  Its form is that of an opening tag. -/
structure IsOpeningTag (guard : Bool) (source : String) (before body behind : List Char) :
    Prop where
  source_eq : source.toList = before ++ '<' :: (body ++ '>' :: behind)
  bracket_mem : ⟨.bracketOpen, "<", byteSize before, byteSize before + 1⟩ ∈ tokenize guard source
  ends : findTagEnd guard (body ++ '>' :: behind) = some body.length
  form : TagForm.ofBody body = .opening

/-- The search for the end of a tag opens a value with the quote behind `front`, goes over `inside`
in it, and closes it with the quote behind that. -/
structure ReadsValue (quote : Char) (body front inside : List Char) : Prop where
  begins : front ++ quote :: (inside ++ [quote]) <+: body
  opens : (QuoteState.outside.after front).opened = none
  keeps : ∀ part, part <+: inside →
    (QuoteState.outside.after (front ++ quote :: part)).opened = some quote
  closes : (QuoteState.outside.after (front ++ quote :: (inside ++ [quote]))).opened = none

/-- The values that the search reads are those of the grammar. -/
theorem readsValue_iff {quote : Char} {body front inside : List Char} :
    ReadsValue quote body front inside ↔
      front ++ quote :: (inside ++ [quote]) <+: body ∧ Outside front ∧ Opens front quote ∧
        quote ∉ inside := by
  constructor
  · intro h
    refine ⟨h.begins, outside_iff.2 h.opens, ?_, ?_⟩
    · have hquote := h.keeps [] List.nil_prefix
      rw [QuoteState.opened_concat_of_none h.opens] at hquote
      by_contra hnot
      rw [if_neg hnot] at hquote
      exact absurd hquote (by simp)
    · intro hmem
      obtain ⟨part, rest, rfl⟩ := List.append_of_mem hmem
      have hpart := h.keeps part (List.prefix_append _ _)
      have hquote := h.keeps (part ++ [quote]) ⟨rest, by simp⟩
      rw [← List.cons_append, ← List.append_assoc, QuoteState.opened_concat_of_some hpart,
        if_pos rfl] at hquote
      exact absurd hquote (by simp)
  · rintro ⟨hbegins, hfront, hopen, hinside⟩
    refine ⟨hbegins, outside_iff.1 hfront, ?_, ?_⟩
    · intro part hpart
      exact endsInValue_iff.1 ⟨front, part, rfl, hfront, hopen, mt (hpart.subset ·) hinside⟩
    · exact outside_iff.1 (.value hfront hopen hinside)

/-! ## Where lexemes start -/

/-- No quote is open where a lexeme starts; the first one starts in `state`. -/
def StartOutside (state : QuoteState) : List Lexeme → Prop
  | [] => True
  | lexeme :: rest => state.opened = none ∧ StartOutside (state.after lexeme.chars) rest

section StartOutside

variable {state : QuoteState}

theorem startOutside_append {front rest : List Lexeme} :
    StartOutside state (front ++ rest) ↔
      StartOutside state front ∧ StartOutside (state.after (Lexeme.join front)) rest := by
  induction front generalizing state with
  | nil => simp [StartOutside]
  | cons lexeme front ih =>
      rw [List.cons_append, StartOutside, StartOutside, ih, Lexeme.join_cons,
        QuoteState.after_append, and_assoc]

theorem StartOutside.opened_eq {front rest : List Lexeme} {lexeme : Lexeme}
    (h : StartOutside state (front ++ lexeme :: rest)) :
    (state.after (Lexeme.join front)).opened = none :=
  (startOutside_append.1 h).2.1

theorem startOutside_singleton {lexeme : Lexeme} :
    StartOutside state [lexeme] ↔ state.opened = none := by
  simp [StartOutside]

theorem startOutside_ofChars (h : state.opened = none) (kind : Kind) (chars : List Char) :
    StartOutside state (Lexeme.ofChars kind chars) := by
  cases chars with
  | nil => trivial
  | cons c chars => exact ⟨h, trivial⟩

end StartOutside

/-! ## Attributes -/

section Attributes

open QuoteState

variable {state : QuoteState}

theorem QuoteState.eq_outside (hopened : state.opened = none)
    (hequals : state.afterEquals = false) : state = outside := by
  obtain ⟨opened, afterEquals⟩ := state
  cases hopened
  cases hequals
  rfl

/-- A gap outside a value is forgotten. -/
theorem QuoteState.after_gap (h : state.opened = none) {c : Char} (hc : isBlank c = true)
    {gap : List Char} (hgap : AllBlank gap) : state.after (c :: gap) = outside := by
  have hquote : isQuote c = false := isQuote_of_isBlank hc
  have hequals : (c == '=') = false := beq_eq_false_iff_ne.2 (ne_of_isBlank hc (by decide))
  have hnext : state.next c = outside := by
    apply eq_outside
    · rw [opened_next_of_none h, hquote]
      rfl
    · exact hequals
  rw [after_cons, hnext, outside_after (not_mem_of_allBlank hgap (by decide))]

/-- An attribute is cut behind its name and behind the equals sign, outside its value. -/
theorem startOutside_attributeLexemes (written : List Char) :
    StartOutside outside (attributeLexemes written) := by
  rw [attributeLexemes_eq]
  split
  · exact startOutside_singleton.2 rfl
  · have hname : '=' ∉ written.takeWhile (· != '=') := by
      intro hmem
      have hne := List.mem_takeWhile_imp hmem
      simp at hne
    refine ⟨rfl, ?_, startOutside_ofChars ?_ _ _⟩
    · exact congrArg opened (outside_after hname)
    · rw [outside_after hname]
      rfl

/-- A guarded attribute that does not end with its body ends outside a value. -/
theorem opened_after_attribute {rest : List Char}
    (h : rest.drop (attributeLength true state rest) ≠ []) :
    (state.after (rest.take (attributeLength true state rest))).opened = none := by
  induction rest generalizing state with
  | nil => simp at h
  | cons c rest ih =>
      rw [attributeLength] at h ⊢
      split
      · rename_i hstop
        simpa using (Bool.and_eq_true_iff.1 hstop).2
      · rename_i hgo
        rw [if_neg hgo, List.drop_succ_cons] at h
        rw [List.take_succ_cons, after_cons]
        exact ih h

/-- Gaps and attributes start outside values.  Where they start with an attribute, no equals sign
may stand in front of it: the attribute is read as if none did. -/
theorem startOutside_gapsAndAttributes (body : List Char) (hopened : state.opened = none)
    (hequals : ∀ c ∈ body.head?, isBlank c = false → state.afterEquals = false) :
    StartOutside state (gapsAndAttributes true body) := by
  fun_induction gapsAndAttributes true body generalizing state with
  | case1 => trivial
  | case2 c rest hc ih =>
      have hgap : state.after (c :: rest.takeWhile isBlank) = outside :=
        after_gap hopened hc fun d => List.mem_takeWhile_imp
      refine ⟨hopened, ?_⟩
      rw [hgap]
      exact ih rfl fun _ _ _ => rfl
  | case3 c rest hc n =>
      rename_i ih
      obtain rfl : state = outside :=
        eq_outside hopened (hequals c rfl (Bool.eq_false_iff.2 hc))
      refine startOutside_append.2 ⟨startOutside_attributeLexemes _, ?_⟩
      rw [join_attributeLexemes, after_cons]
      by_cases hend : rest.drop n = []
      · rw [hend, gapsAndAttributes_nil]
        trivial
      · refine ih (opened_after_attribute hend) fun d hd hblank => ?_
        rw [isBlank_of_mem_head?_drop_attributeLength hd] at hblank
        exact absurd hblank (by simp)

theorem startOutside_nameAndAttributes {body : List Char}
    (hname : '=' ∉ body.takeWhile fun c => !isBlank c) :
    StartOutside outside (nameAndAttributes true body) := by
  refine startOutside_append.2 ⟨startOutside_ofChars rfl _ _, ?_⟩
  rw [Lexeme.join_ofChars, outside_after hname]
  exact startOutside_gapsAndAttributes _ rfl fun _ _ _ => rfl

/-- A `/` at the end of a body that ends outside a value stands outside a value. -/
theorem opened_after_of_slash {front : List Char}
    (h : (outside.after (front ++ ['/'])).opened = none) : (outside.after front).opened = none := by
  cases hopened : (outside.after front).opened with
  | none => rfl
  | some quote =>
      obtain ⟨_, _, _, _, hopen, _⟩ := endsInValue_iff.2 hopened
      have hslash : '/' ≠ quote := Ne.symm (ne_of_isQuote hopen.1 (by decide))
      rw [opened_concat_of_some hopened, if_neg hslash] at h
      exact absurd h (by simp)

/-- The lexemes of an opening tag behind its `<` start outside values. -/
theorem startOutside_endedBody {body : List Char} (hform : TagForm.ofBody body = .opening)
    (hname : '=' ∉ body.takeWhile fun c => !isBlank c)
    (hend : (outside.after body).opened = none) : StartOutside outside (endedBody true body) := by
  rw [endedBody, hform]
  dsimp only
  split
  · rename_i hslash
    obtain ⟨front, rfl⟩ := List.getLast?_eq_some_iff.1 (beq_iff_eq.1 hslash)
    have hfront : '=' ∉ front.takeWhile fun c => !isBlank c := by
      rw [List.takeWhile_append] at hname
      split at hname
      · intro hmem
        exact hname (List.mem_append_left _ (List.takeWhile_subset _ hmem))
      · exact hname
    rw [List.dropLast_concat]
    refine startOutside_append.2 ⟨startOutside_nameAndAttributes hfront, ?_⟩
    rw [join_nameAndAttributes]
    exact startOutside_singleton.2 (opened_after_of_slash hend)
  · refine startOutside_append.2 ⟨startOutside_nameAndAttributes hname, ?_⟩
    rw [join_nameAndAttributes]
    exact startOutside_singleton.2 hend

end Attributes

/-- The body of a guarded tag that is no CDATA section ends outside a value. -/
theorem opened_after_of_findTagEnd {body behind : List Char} (hcdata : ¬cdataBodyOpen <+: body)
    (h : findTagEnd true (body ++ '>' :: behind) = some body.length) :
    (QuoteState.outside.after body).opened = none := by
  rw [findTagEnd_eq_firstEnd] at h
  obtain ⟨front, rest, hbody, hlength, hends, -⟩ := firstEnd_eq_some_iff.1 h
  obtain ⟨rfl, -⟩ := List.append_inj hbody hlength.symm
  rw [List.nil_append, endsTag, splitsLiteral_guarded, Bool.or_false, readsLiteral,
    if_neg (mt List.isPrefixOf_iff_prefix.1 hcdata)] at hends
  simpa using hends

/-! ## Texts lexed from a tag on -/

theorem inner_tail_lexStep (guard : Bool) (c : Char) (rest : List Char) :
    Inner (lexStep guard c rest).1.tail := by
  rw [lexStep]
  split
  · split
    · simp [Inner, lexComment]
    · exact inner_of_withinTag (withinTag_lexTagBody guard rest)
  · simp [Inner]

/-- Where a tag starts, the lexer starts anew. -/
theorem exists_lexemes_eq {guard : Bool} {source : List Char} {front rest : List Lexeme}
    {lexeme : Lexeme} (h : lexemes guard source = front ++ lexeme :: rest)
    (hstart : lexeme.kind.startsTag = true) :
    ∃ behind, source = Lexeme.join front ++ behind ∧ lexemes guard behind = lexeme :: rest := by
  fun_induction lexemes guard source generalizing front with
  | case1 => simp at h
  | case2 c text ih =>
      have hstep := join_lexStep guard c text
      rcases List.append_eq_append_iff.1 h with ⟨more, rfl, hrest⟩ | ⟨more, hfirst, hmore⟩
      · obtain ⟨behind, hbehind, hlexemes⟩ := ih hrest
        rw [hbehind] at hstep
        exact ⟨behind, by simp [← hstep], hlexemes⟩
      · cases more with
        | nil =>
            rw [List.append_nil] at hfirst
            exact ⟨_, by rw [← hfirst, hstep], hmore.symm⟩
        | cons first more =>
            obtain ⟨rfl, -⟩ := List.cons.inj hmore
            cases front with
            | nil => exact ⟨c :: text, rfl, by rw [lexemes_cons, h, List.nil_append]⟩
            | cons before front =>
                have hinner := inner_tail_lexStep guard c text
                rw [hfirst] at hinner
                have hnot := hinner lexeme (by simp)
                rw [hstart] at hnot
                exact absurd hnot (by simp)

/-! ## Places of lexemes -/

namespace Lexeme

variable {start : Nat} {lexemes : List Lexeme} {token : Token}

/-- A placed token is a lexeme, and its place is behind the lexemes in front. -/
theorem exists_append_of_mem_place (h : token ∈ place start lexemes) :
    ∃ front rest, lexemes = front ++ token.lexeme :: rest ∧
      token.start = start + byteSize (join front) := by
  induction lexemes generalizing start with
  | nil => simp [place] at h
  | cons lexeme lexemes ih =>
      rcases List.mem_cons.1 h with rfl | h
      · exact ⟨[], lexemes, by simp [Token.lexeme], by simp⟩
      · obtain ⟨front, rest, rfl, hstart⟩ := ih h
        refine ⟨lexeme :: front, rest, rfl, ?_⟩
        rw [hstart, join_cons, byteSize_append, Nat.add_assoc]

theorem bounds_of_mem_place (h : token ∈ place start lexemes) :
    start ≤ token.start ∧ token.stop ≤ start + byteSize (join lexemes) ∧
      token.start ≤ token.stop := by
  obtain ⟨before, after, hjoin, hstart, hstop⟩ := exists_of_mem_place h
  rw [hjoin, byteSize_append, byteSize_append]
  omega

/-- A stretch in which no token starts but at its first byte stands in one token. -/
theorem exists_token_of_no_start {p q : Nat} (hp : start ≤ p) (hpq : p ≤ q)
    (hq : q < start + byteSize (join lexemes))
    (h : ∀ token ∈ place start lexemes, ¬(p < token.start ∧ token.start ≤ q)) :
    ∃ token ∈ place start lexemes, token.start ≤ p ∧ q < token.stop := by
  induction lexemes generalizing start with
  | nil =>
      rw [join_nil, byteSize_nil] at hq
      omega
  | cons lexeme lexemes ih =>
      rw [join_cons, byteSize_append, ← Nat.add_assoc] at hq
      rw [place, List.forall_mem_cons] at h
      rw [place, List.exists_mem_cons_iff]
      by_cases hfirst : q < start + byteSize lexeme.chars
      · exact Or.inl ⟨hp, hfirst⟩
      · by_cases hnext : start + byteSize lexeme.chars ≤ p
        · exact Or.inr (ih hnext hq h.2)
        · -- The next token would start in the stretch.
          cases lexemes with
          | nil =>
              rw [join_nil, byteSize_nil] at hq
              omega
          | cons next lexemes =>
              have hstart := (List.forall_mem_cons.1 h.2).1
              exact absurd ⟨Nat.lt_of_not_le hnext, Nat.le_of_not_lt hfirst⟩ hstart

end Lexeme

/-! ## Tokens -/

/-- The lexemes of a text with an opening tag: those in front of the tag, its bracket, those of its
body, and those behind. -/
theorem IsOpeningTag.exists_lexemes {guard : Bool} {source : String}
    {before body behind : List Char} (h : IsOpeningTag guard source before body behind) :
    ∃ front, Lexeme.join front = before ∧ lexemes guard source.toList =
      front ++ ⟨.bracketOpen, ['<']⟩ :: endedBody guard body ++ lexemes guard behind := by
  obtain ⟨front, rest, hlexemes, hplace⟩ := Lexeme.exists_append_of_mem_place h.bracket_mem
  obtain ⟨text, htext, hrest⟩ := exists_lexemes_eq hlexemes rfl
  have hsize : byteSize (Lexeme.join front) = byteSize before := by
    rw [Nat.zero_add] at hplace
    exact hplace.symm
  rw [h.source_eq] at htext
  obtain ⟨more, hbefore, rfl⟩ := exists_append_of_byteSize_le htext.symm hsize.le
  obtain rfl : more = [] := by
    rw [hbefore, byteSize_append] at hsize
    exact byteSize_eq_zero_iff.1 (by omega)
  refine ⟨front, by rw [hbefore, List.append_nil], ?_⟩
  rw [hlexemes, ← hrest, List.append_assoc, List.append_cancel_left_eq]
  rw [List.nil_append, lexemes_cons, lexStep, if_pos (by rfl)] at hrest ⊢
  split at hrest
  · -- A comment has another kind.
    rw [lexComment, List.singleton_append, List.cons.injEq, Token.lexeme, Lexeme.mk.injEq] at hrest
    exact absurd hrest.1.1 (by simp)
  · rename_i hcomment
    rw [if_neg hcomment, lexTagBody, h.ends]
    simp

/-- The tokens of a text with an opening tag. -/
theorem IsOpeningTag.tokenize_eq {guard : Bool} {source : String} {before body behind : List Char}
    (h : IsOpeningTag guard source before body behind) :
    ∃ front, Lexeme.join front = before ∧ tokenize guard source =
      Lexeme.place 0 front ++ ⟨.bracketOpen, "<", byteSize before, byteSize before + 1⟩ ::
        Lexeme.place (byteSize before + 1) (endedBody guard body) ++
        Lexeme.place (byteSize before + 1 + byteSize (body ++ ['>'])) (lexemes guard behind) := by
  obtain ⟨front, hfront, hlexemes⟩ := h.exists_lexemes
  have hbracket : '<'.utf8Size = 1 := by decide
  refine ⟨front, hfront, ?_⟩
  rw [tokenize, hlexemes, Lexeme.place_append, Lexeme.place_append, Lexeme.place,
    Lexeme.join_append, Lexeme.join_cons, join_endedBody, hfront]
  simp [hbracket, Nat.add_assoc]

/-- Lexemes of a body and its `>` that start outside values do not cut a value. -/
theorem ReadsValue.not_start {quote : Char} {body front inside : List Char}
    (h : ReadsValue quote body front inside) {lexemes : List Lexeme}
    (houtside : StartOutside .outside lexemes) (hjoin : Lexeme.join lexemes = body ++ ['>'])
    {start : Nat} {token : Token} (hmem : token ∈ Lexeme.place start lexemes) :
    ¬(start + byteSize front < token.start ∧
      token.start ≤ start + byteSize (front ++ quote :: inside)) := by
  rintro ⟨hbehind, hbefore⟩
  obtain ⟨ahead, rest, rfl, hplace⟩ := Lexeme.exists_append_of_mem_place hmem
  obtain ⟨after, hbody⟩ := h.begins
  have hcut : Lexeme.join ahead ++ Lexeme.join (token.lexeme :: rest) =
      front ++ quote :: (inside ++ quote :: (after ++ ['>'])) := by
    rw [← Lexeme.join_append, hjoin, ← hbody]
    simp
  obtain ⟨more, hahead, hmore⟩ := exists_append_of_byteSize_le hcut.symm (by omega)
  cases more with
  | nil =>
      rw [hahead, List.append_nil] at hplace
      omega
  | cons c part =>
      obtain ⟨rfl, hpart⟩ := List.cons.inj hmore
      rw [hplace, hahead, byteSize_append, byteSize_append, byteSize_cons, byteSize_cons] at hbefore
      obtain ⟨last, hinside, -⟩ := exists_append_of_byteSize_le hpart.symm (by omega)
      have hopened := h.keeps part ⟨last, hinside.symm⟩
      rw [← hahead, houtside.opened_eq] at hopened
      exact absurd hopened (by simp)

/-- Guarded, a quoted value of an opening tag is not cut, if the tag is no CDATA section and its
name holds no equals sign: no token starts behind the quote that opens the value and not behind the
one that closes it, so that one token holds the value with both. -/
theorem tokenize_readsValue {source : String} {before body behind front inside : List Char}
    {quote : Char} (htag : IsOpeningTag true source before body behind)
    (hcdata : ¬cdataBodyOpen <+: body) (hname : '=' ∉ body.takeWhile fun c => !isBlank c)
    (hvalue : ReadsValue quote body front inside) :
    (∀ token ∈ tokenize true source, ∀ offset, token.start = byteSize before + 1 + offset →
      ¬(byteSize front + 1 ≤ offset ∧ offset ≤ byteSize (front ++ quote :: inside))) ∧
    ∃ token ∈ tokenize true source,
      token.start ≤ byteSize before + 1 + byteSize front ∧
      byteSize before + 1 + byteSize (front ++ quote :: inside) < token.stop := by
  have houtside : StartOutside .outside (endedBody true body) :=
    startOutside_endedBody htag.form hname (opened_after_of_findTagEnd hcdata htag.ends)
  have hjoin : Lexeme.join (endedBody true body) = body ++ ['>'] := join_endedBody true body
  have hinside : ∀ token ∈ Lexeme.place (byteSize before + 1) (endedBody true body),
      ¬(byteSize before + 1 + byteSize front < token.start ∧
        token.start ≤ byteSize before + 1 + byteSize (front ++ quote :: inside)) :=
    fun token => hvalue.not_start houtside hjoin
  have hsize : byteSize (front ++ quote :: inside) < byteSize (body ++ ['>']) := by
    obtain ⟨after, hbody⟩ := hvalue.begins
    have hpos := quote.utf8Size_pos
    simp only [← hbody, byteSize_append, byteSize_cons]
    omega
  obtain ⟨ahead, hahead, htokens⟩ := htag.tokenize_eq
  rw [htokens]
  constructor
  · intro token hmem offset hoffset hstart
    rw [List.mem_append, List.mem_append, List.mem_cons] at hmem
    rcases hmem with (hmem | rfl | hmem) | hmem
    · have hbounds := Lexeme.bounds_of_mem_place hmem
      rw [hahead] at hbounds
      omega
    · dsimp only at hoffset
      omega
    · exact hinside token hmem ⟨by omega, by omega⟩
    · have hbounds := Lexeme.bounds_of_mem_place hmem
      omega
  · obtain ⟨token, hmem, hcover⟩ := Lexeme.exists_token_of_no_start (Nat.le_add_right _ _)
      (by rw [byteSize_append]; omega) (by rw [hjoin]; omega) hinside
    refine ⟨token, ?_, hcover⟩
    exact List.mem_append_left _ (List.mem_append_right _ (List.mem_cons_of_mem _ hmem))

/-- A value that holds a blank, a `>` and a `/`, in a tag that ends with `/>`. -/
theorem tokenize_readsValue_slash :
    (∀ token ∈ tokenize true "é<a t=\x22x é>/\x22/>z", ∀ offset, token.start = 2 + 1 + offset →
      ¬(4 + 1 ≤ offset ∧ offset ≤ 11)) ∧
    ∃ token ∈ tokenize true "é<a t=\x22x é>/\x22/>z",
      token.start ≤ 2 + 1 + 4 ∧ 2 + 1 + 11 < token.stop := by
  have htag : IsOpeningTag true "é<a t=\x22x é>/\x22/>z" ['é'] "a t=\x22x é>/\x22/".toList ['z'] :=
    ⟨by decide, by decide +kernel, by decide +kernel, by decide⟩
  have hvalue : ReadsValue '\x22' "a t=\x22x é>/\x22/".toList "a t=".toList "x é>/".toList :=
    readsValue_iff.2 ⟨by decide, outside_iff.2 (by decide), by decide, by decide⟩
  exact tokenize_readsValue htag (by decide) (by decide) hvalue

end Markup

end PrettyMarkup
