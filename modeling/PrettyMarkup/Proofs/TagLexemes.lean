import PrettyMarkup.Proofs.Partition
import PrettyMarkup.Proofs.Pieces

/-!
# The lexer cuts where the automaton cuts

The lexer finds the end of a comment by looking ahead for its closer, and the end of a tag by
counting characters.  Both are the cuts of one automaton: at a `<`, the first lexemes of a text
are those of its first tag, and the lexemes of the text behind the tag follow
(`lexemes_tag`); if the tag has no end, its two parts are all there is (`lexemes_open`).

## Implementation notes

The lexer never lets a `<` end a comment, so its guards are not uniform (`lexGuards`).
-/

namespace PrettyMarkup

namespace Markup

open Text

/-- The literals that the lexer guards: comments always, the others on demand. -/
def lexGuards (guard : Bool) : Region → Bool
  | .comment => true
  | _ => guard

@[simp] theorem lexGuards_true : lexGuards true = uniform true := by
  funext region
  cases region <;> rfl

theorem lexGuards_of_ne {region : Region} (h : region ≠ .comment) (guard : Bool) :
    lexGuards guard region = guard := by
  cases region with
  | comment => exact absurd rfl h
  | _ => rfl

namespace Scan

theorem next_region_ne_comment {scan : Scan} (h : scan.region ≠ .comment) (c : Char) :
    (scan.next c).region ≠ .comment := by
  obtain ⟨region, marked, doubled⟩ := scan
  cases region with
  | comment => exact absurd rfl h
  | tag => cases hc : isQuote c && marked <;> simp [next, hc]
  | quoted quote => cases hc : c == quote <;> simp [next, hc]
  | text => exact h
  | cdata => exact h

/-- Outside comments the lexer guards what it is told to guard. -/
theorem cut?_lexGuards {scan : Scan} (h : scan.region ≠ .comment) (guard : Bool)
    (text : List Char) : cut? (lexGuards guard) scan text = cut? (uniform guard) scan text := by
  induction text generalizing scan with
  | nil => rfl
  | cons c rest ih =>
      have hends : scan.ends (lexGuards guard) c rest = scan.ends (uniform guard) c rest := by
        rw [ends, ends, lexGuards_of_ne h, uniform_apply]
      rw [cut?, cut?, hends, ih (next_region_ne_comment h c)]

end Scan

theorem cutTag?_lexGuards {source : List Char} (h : commentOpen.isPrefixOf source = false)
    (guard : Bool) : cutTag? (lexGuards guard) source = cutTag? (uniform guard) source := by
  have hregion : (Scan.start (Region.ofTagStart source)).region ≠ .comment := by
    rw [Scan.start, Region.ofTagStart, if_neg (by simp [h])]
    split <;> simp
  rw [cutTag?, cutTag?, Scan.cut?_lexGuards hregion]

namespace Scan

/-- What the automaton remembers of quotes. -/
def quotes (scan : Scan) : QuoteState where
  opened :=
    match scan.region with
    | .quoted quote => some quote
    | _ => none
  afterEquals := scan.marked

/-- Whether the automaton stands in a tag with attributes, in or outside a value. -/
def IsPlain (scan : Scan) : Prop := scan.region = .tag ∨ ∃ quote, scan.region = .quoted quote

variable {scan : Scan}

theorem IsPlain.next (h : scan.IsPlain) (c : Char) : (scan.next c).IsPlain := by
  obtain ⟨region, marked, doubled⟩ := scan
  rcases h with rfl | ⟨quote, rfl⟩
  · cases hc : isQuote c && marked <;> simp [IsPlain, Scan.next, hc]
  · cases hc : c == quote <;> simp [IsPlain, Scan.next, hc]

theorem IsPlain.quotes_next (h : scan.IsPlain) (c : Char) :
    (scan.next c).quotes = scan.quotes.next c := by
  obtain ⟨region, marked, doubled⟩ := scan
  rcases h with rfl | ⟨quote, rfl⟩
  · cases hc : isQuote c && marked <;>
      simp [quotes, Scan.next, QuoteState.next, hc, Region.mark]
  · cases hc : c == quote <;> simp [quotes, Scan.next, QuoteState.next, hc, Region.mark]

theorem IsPlain.ends_eq (h : scan.IsPlain) (guard : Bool) (c : Char) (rest : List Char) :
    scan.ends (lexGuards guard) c rest =
      (c == '>' && (scan.quotes.opened.isNone || splitsLiteral guard rest)) := by
  obtain ⟨region, marked, doubled⟩ := scan
  rcases h with rfl | ⟨quote, rfl⟩ <;> rfl

/-- The end of a tag with attributes is the one that is counted to. -/
theorem IsPlain.cut?_eq (h : scan.IsPlain) (guard : Bool) (body : List Char) :
    cut? (lexGuards guard) scan body =
      (findPlainEnd guard scan.quotes body).map
        fun n => (body.take (n + 1), body.drop (n + 1)) := by
  induction body generalizing scan with
  | nil => rfl
  | cons c rest ih =>
      rw [findPlainEnd, ← h.ends_eq, ← h.quotes_next, cut?]
      split
      · rfl
      · rw [ih (h.next c), Option.map_map, Option.map_map]
        rfl

/-- The end of a CDATA section is the one that is counted to. -/
theorem cut?_cdata (guard marked doubled : Bool) (body : List Char) :
    cut? (lexGuards guard) ⟨.cdata, marked, doubled⟩ body =
      (findCdataEnd guard doubled marked body).map
        fun n => (body.take (n + 1), body.drop (n + 1)) := by
  induction body generalizing marked doubled with
  | nil => rfl
  | cons c rest ih =>
      have hends : (⟨.cdata, marked, doubled⟩ : Scan).ends (lexGuards guard) c rest =
          (c == '>' && (doubled || splitsLiteral guard rest)) := rfl
      have hnext : (⟨.cdata, marked, doubled⟩ : Scan).next c =
          ⟨.cdata, c == ']', marked && c == ']'⟩ := rfl
      rw [findCdataEnd, ← hends, cut?, hnext]
      split
      · rfl
      · rw [ih, Option.map_map, Option.map_map]
        rfl

/-! ## Comments -/

theorem splitComment_cons {c : Char} {rest : List Char}
    (h : commentClose.isPrefixOf (c :: rest) = false) :
    splitComment (c :: rest) = (c :: (splitComment rest).1, (splitComment rest).2) := by
  rw [splitComment, if_neg (by simp [h])]

/-- A comment that is cut with `pending` read already. -/
def resume (pending rest : List Char) :
    Option (List Char × List Char) → List Char × List Char
  | some (inside, after) => (pending ++ inside, after)
  | none => (pending ++ rest, [])

theorem resume_cons (pending rest : List Char) (c : Char)
    (cut : Option (List Char × List Char)) :
    resume pending (c :: rest) (cut.map fun (inside, after) => (c :: inside, after)) =
      resume (pending ++ [c]) rest cut := by
  cases cut <;> simp [resume]

theorem cons_resume (pending rest : List Char) (c : Char)
    (cut : Option (List Char × List Char)) :
    (c :: (resume pending rest cut).1, (resume pending rest cut).2) =
      resume (c :: pending) rest cut := by
  cases cut <;> rfl

section Comment

variable {guards : Region → Bool} (hguards : guards .comment = true)

include hguards

/-- A comment goes on over a character that does not close it. -/
theorem resume_cut?_cons {marked doubled : Bool} {c : Char} (hc : (c == '>' && doubled) = false)
    (pending rest : List Char) :
    resume pending (c :: rest) (cut? guards ⟨.comment, marked, doubled⟩ (c :: rest)) =
      resume (pending ++ [c]) rest
        (cut? guards ⟨.comment, c == '-', marked && c == '-'⟩ rest) := by
  have hends : (⟨.comment, marked, doubled⟩ : Scan).ends guards c rest = false := by
    simpa [ends, closes, hguards] using hc
  rw [cut?_cons_of_not_ends hends, resume_cons]
  rfl

/-- Looking ahead for `-->` is looking back on up to two dashes. -/
theorem splitComment_eq_resume (rest : List Char) :
    splitComment rest = resume [] rest (cut? guards ⟨.comment, false, false⟩ rest) ∧
      splitComment ('-' :: rest) = resume ['-'] rest (cut? guards ⟨.comment, true, false⟩ rest) ∧
      splitComment ('-' :: '-' :: rest) =
        resume ['-', '-'] rest (cut? guards ⟨.comment, true, true⟩ rest) := by
  induction rest with
  | nil => exact ⟨rfl, rfl, rfl⟩
  | cons c rest ih =>
      obtain ⟨hnone, hone, htwo⟩ := ih
      by_cases hdash : c = '-'
      · subst hdash
        refine ⟨?_, ?_, ?_⟩
        · rw [hone, resume_cut?_cons hguards (by decide)]
          rfl
        · rw [htwo, resume_cut?_cons hguards (by decide)]
          rfl
        · rw [splitComment_cons (by simp [commentClose, List.isPrefixOf]), htwo, cons_resume,
            resume_cut?_cons hguards (by decide)]
          rfl
      · have hd : (c == '-') = false := by simpa using hdash
        have hskip : splitComment (c :: rest) =
            (c :: (splitComment rest).1, (splitComment rest).2) :=
          splitComment_cons (by simp [commentClose, List.isPrefixOf, Ne.symm hdash])
        have hskipOne : splitComment ('-' :: c :: rest) =
            ('-' :: (splitComment (c :: rest)).1, (splitComment (c :: rest)).2) :=
          splitComment_cons (by simp [commentClose, List.isPrefixOf, Ne.symm hdash])
        refine ⟨?_, ?_, ?_⟩
        · rw [hskip, hnone, cons_resume, resume_cut?_cons hguards (by simp), hd]
          rfl
        · rw [hskipOne, hskip, hnone, cons_resume, cons_resume, resume_cut?_cons hguards (by simp),
            hd]
          rfl
        · by_cases hgt : c = '>'
          · subst hgt
            rw [cut?_cons_of_ends (by simp [ends, closes])]
            rfl
          · rw [splitComment_cons (by simp [commentClose, List.isPrefixOf, Ne.symm hgt]), hskipOne,
              hskip, hnone, cons_resume, cons_resume, cons_resume,
              resume_cut?_cons hguards (by simp [hgt]), hd]
            rfl

end Comment

/-- A comment is split where the automaton cuts it. -/
theorem splitComment_eq (guard : Bool) (text : List Char) :
    splitComment text = resume [] text (cut? (lexGuards guard) (start .comment) text) :=
  (splitComment_eq_resume (show lexGuards guard .comment = true from rfl) text).1

end Scan

/-! ## The lexemes of a tag -/

/-- The lexemes of a tag with its brackets. -/
def tagLexemes (guard : Bool) (tag : List Char) : List Lexeme :=
  if commentOpen.isPrefixOf tag then [⟨.comment, tag⟩]
  else ⟨.bracketOpen, ['<']⟩ :: endedBody guard tag.tail.dropLast

/-- The lexemes of a tag that has no end. -/
def openLexemes (tag : List Char) : List Lexeme :=
  if commentOpen.isPrefixOf tag then [⟨.comment, tag⟩]
  else ⟨.bracketOpen, ['<']⟩ :: Lexeme.ofChars (TagForm.ofBody tag.tail).bodyKind tag.tail

@[simp] theorem isPrefixOf_commentOpen (body : List Char) :
    commentOpen.isPrefixOf ('<' :: body) = commentBodyOpen.isPrefixOf body := by
  simp [commentOpen]

@[simp] theorem isPrefixOf_cdataOpen (body : List Char) :
    cdataOpen.isPrefixOf ('<' :: body) = cdataBodyOpen.isPrefixOf body := by
  simp [cdataOpen]

/-- What is no comment is cut where its body ends. -/
theorem cutTag?_eq_findTagEnd (guard : Bool) {body : List Char}
    (hbody : commentBodyOpen.isPrefixOf body = false) :
    cutTag? (lexGuards guard) ('<' :: body) =
      (findTagEnd guard body).map fun n => ('<' :: body.take (n + 1), body.drop (n + 1)) := by
  rw [cutTag?, findTagEnd]
  cases hcdata : cdataBodyOpen.isPrefixOf body with
  | true =>
      obtain ⟨text, rfl⟩ := List.isPrefixOf_iff_prefix.1 hcdata
      have hregion : Region.ofTagStart ('<' :: (cdataBodyOpen ++ text)) = .cdata := by
        simp [Region.ofTagStart, hbody, hcdata]
      have hopener : Region.cdata.opener = '<' :: cdataBodyOpen := rfl
      rw [hregion, hopener, Scan.start, Scan.cut?_cdata]
      simp only [if_true, List.length_cons, List.drop_succ_cons, List.drop_left, Option.map_map]
      rfl
  | false =>
      have hregion : Region.ofTagStart ('<' :: body) = .tag := by
        simp [Region.ofTagStart, hbody, hcdata]
      have hplain : (Scan.start .tag).IsPlain := Or.inl rfl
      have hopener : Region.tag.opener = ['<'] := rfl
      rw [hregion, hopener]
      simp only [List.length_singleton, List.drop_succ_cons, List.drop_zero]
      rw [hplain.cut?_eq, Option.map_map]
      rfl

theorem take_findTagEnd {guard : Bool} {body : List Char} {n : Nat}
    (h : findTagEnd guard body = some n) : (body.take (n + 1)).dropLast = body.take n := by
  rw [List.take_add_one, getElem?_findTagEnd h]
  simp

theorem ofTagStart_commentOpen (text : List Char) :
    Region.ofTagStart (Region.comment.opener ++ text) = .comment := by
  have hopen : commentOpen.isPrefixOf (commentOpen ++ text) = true :=
    List.isPrefixOf_iff_prefix.2 (List.prefix_append _ _)
  have hopener : Region.comment.opener = commentOpen := rfl
  rw [hopener, Region.ofTagStart, if_pos hopen]

/-- A text that starts with a tag is cut into the lexemes of the tag and those of the text behind
it. -/
theorem lexemes_tag {guard : Bool} {source tag after : List Char}
    (hsource : meetsTag source = true) (h : cutTag? (lexGuards guard) source = some (tag, after)) :
    lexemes guard source = tagLexemes guard tag ++ lexemes guard after := by
  obtain ⟨body, rfl⟩ := exists_of_meetsTag hsource
  rw [lexemes_cons, lexStep, if_pos (by rfl)]
  cases hcomment : commentBodyOpen.isPrefixOf body with
  | true =>
      obtain ⟨text, rfl⟩ := List.isPrefixOf_iff_prefix.1 hcomment
      have hopener : '<' :: (commentBodyOpen ++ text) = Region.comment.opener ++ text := rfl
      rw [hopener] at h
      obtain ⟨inside, rfl, hcut⟩ := exists_cut?_of_cutTag?_opener (ofTagStart_commentOpen text) h
      have hsplit := Scan.splitComment_eq guard text
      rw [hcut] at hsplit
      have hopen : commentOpen.isPrefixOf (Region.comment.opener ++ inside) = true :=
        List.isPrefixOf_iff_prefix.2 (List.prefix_append _ _)
      rw [if_pos rfl, List.drop_left, lexComment, hsplit, tagLexemes, if_pos hopen]
      rfl
  | false =>
      rw [cutTag?_eq_findTagEnd guard hcomment] at h
      obtain ⟨n, hn, heq⟩ := Option.map_eq_some_iff.1 h
      simp only [Prod.mk.injEq] at heq
      obtain ⟨rfl, rfl⟩ := heq
      have hopen : commentBodyOpen.isPrefixOf (body.take (n + 1)) = false := by
        rw [Bool.eq_false_iff]
        intro hprefix
        have hlong := (List.isPrefixOf_iff_prefix.1 hprefix).trans (List.take_prefix (n + 1) body)
        rw [List.isPrefixOf_iff_prefix.2 hlong] at hcomment
        simp at hcomment
      rw [if_neg (by simp), lexTagBody, hn, tagLexemes, isPrefixOf_commentOpen, hopen,
        if_neg (by simp), List.tail_cons, take_findTagEnd hn]

/-- The lexemes of a tag make up the tag. -/
theorem join_tagLexemes {guard : Bool} {source tag after : List Char}
    (hsource : meetsTag source = true) (h : cutTag? (lexGuards guard) source = some (tag, after)) :
    Lexeme.join (tagLexemes guard tag) = tag := by
  have hjoin := join_lexemes guard source
  rw [lexemes_tag hsource h, Lexeme.join_append, join_lexemes,
    ← (of_cutTag?_eq_some hsource h).1] at hjoin
  exact List.append_cancel_right hjoin

/-- A tag without end is cut into its opener and what stands behind it. -/
theorem lexemes_open {guard : Bool} {source : List Char} (hsource : meetsTag source = true)
    (h : cutTag? (lexGuards guard) source = none) : lexemes guard source = openLexemes source := by
  obtain ⟨body, rfl⟩ := exists_of_meetsTag hsource
  rw [lexemes_cons, lexStep, if_pos (by rfl), openLexemes, isPrefixOf_commentOpen]
  cases hcomment : commentBodyOpen.isPrefixOf body with
  | true =>
      obtain ⟨text, rfl⟩ := List.isPrefixOf_iff_prefix.1 hcomment
      have hopener : '<' :: (commentBodyOpen ++ text) = Region.comment.opener ++ text := rfl
      rw [hopener, cutTag?_opener_eq_none_iff (ofTagStart_commentOpen text)] at h
      have hsplit := Scan.splitComment_eq guard text
      rw [h] at hsplit
      rw [if_pos rfl, if_pos rfl, List.drop_left, lexComment, hsplit]
      simp [Scan.resume]
  | false =>
      rw [cutTag?_eq_findTagEnd guard hcomment, Option.map_eq_none_iff] at h
      rw [if_neg (by simp), if_neg (by simp), lexTagBody, h]
      simp

/-- Character data up to a `<` is one lexeme. -/
theorem lexemes_data {guard : Bool} {data rest : List Char} (hdata : '<' ∉ data)
    (hrest : rest = [] ∨ meetsTag rest = true) :
    lexemes guard (data ++ rest) = Lexeme.ofChars .text data ++ lexemes guard rest := by
  cases data with
  | nil => rfl
  | cons c data =>
      simp only [List.mem_cons, not_or] at hdata
      have hkept : ∀ d ∈ data, (d != '<') = true := by
        intro d hd
        simpa using ne_of_mem_of_not_mem hd hdata.2
      have hstop : ∀ d ∈ rest.head?, (d != '<') = false := by
        intro d hd
        rcases hrest with rfl | hrest
        · simp at hd
        · obtain ⟨rest, rfl⟩ := exists_of_meetsTag hrest
          obtain rfl : '<' = d := by simpa using hd
          rfl
      obtain ⟨htake, hdrop⟩ := takeWhile_dropWhile_append hkept hstop
      rw [List.cons_append, lexemes_cons, lexStep, if_neg (by simpa using Ne.symm hdata.1), htake,
        hdrop]
      rfl

/-- A text is character data and what starts with its first tag. -/
theorem exists_data_append (source : List Char) :
    ∃ data rest, source = data ++ rest ∧ '<' ∉ data ∧ (rest = [] ∨ meetsTag rest = true) := by
  refine ⟨source.takeWhile (· != '<'), source.dropWhile (· != '<'),
    List.takeWhile_append_dropWhile.symm, ?_, ?_⟩
  · intro hmem
    have hlt := List.mem_takeWhile_imp hmem
    simp at hlt
  · cases hdrop : source.dropWhile (· != '<') with
    | nil => exact Or.inl rfl
    | cons c rest =>
        have hc := eq_false_of_mem_head?_dropWhile (· != '<') source (by rw [hdrop]; rfl)
        exact Or.inr (by simpa [meetsTag] using hc)

/-- Data in front of a text is one lexeme with the data that the text starts with. -/
theorem exists_lexemes_data {data : List Char} (hdata : '<' ∉ data) (guard : Bool)
    (source : List Char) :
    ∃ more rest, source = more ++ rest ∧ (rest = [] ∨ meetsTag rest = true) ∧
      lexemes guard source = Lexeme.ofChars .text more ++ lexemes guard rest ∧
      lexemes guard (data ++ source) =
        Lexeme.ofChars .text (data ++ more) ++ lexemes guard rest := by
  obtain ⟨more, rest, rfl, hmore, hrest⟩ := exists_data_append source
  refine ⟨more, rest, rfl, hrest, lexemes_data hmore hrest, ?_⟩
  rw [← List.append_assoc, lexemes_data (by simp [hdata, hmore]) hrest]

end Markup

end PrettyMarkup
