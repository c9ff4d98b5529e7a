import PrettyMarkup.Proofs.TagStarts

/-!
# Tags cut by their tokens

The tokens of a text say where its tags are: a comment is a token by itself, and any other tag goes
from its opening bracket through the next closing one.  The lines of a document say it as well:
they are the tags of the raw text, put on one line.  The two scanners that are behind this never
differ, but for comments that are split where literals are not guarded.

## Implementation notes

The lexer guards comments always, so its pieces are those of the reader only where no comment is
opened or everything is guarded (`pieces_lexGuards`).
-/

namespace PrettyMarkup

namespace Markup

open Text

/-! ## Slices -/

/-- The place at which a tag ends, by the tokens behind its opening bracket: that of the next
closing bracket, or that of the whole text. -/
def tagStop (source : List Char) (behind : List Token) : Nat :=
  match behind.find? fun token => token.kind == .bracketClose with
  | some token => token.stop
  | none => byteSize source

/-- The tags of a text by its tokens, one for each comment and one for each opening bracket. -/
def tagSlices (source : List Char) : List Token → List (Option (List Char))
  | [] => []
  | token :: behind =>
    match token.kind with
    | .comment => some token.text.toList :: tagSlices source behind
    | .bracketOpen =>
      slice? token.start (tagStop source behind) source :: tagSlices source behind
    | _ => tagSlices source behind

/-! ## Pieces of the lexer -/

/-- Without comments, and where everything is guarded, the lexer and the reader cut a text into the
same pieces. -/
theorem pieces_lexGuards {guard : Bool} {source : List Char}
    (h : guard = true ∨ ¬ commentOpen <:+: source) :
    pieces (lexGuards guard) source = pieces (uniform guard) source := by
  rcases h with rfl | h
  · rw [lexGuards_true]
  · have hcut : ∀ {source : List Char}, ¬ commentOpen <:+: source →
        cutTag? (lexGuards guard) source = cutTag? (uniform guard) source := by
      intro source h
      apply cutTag?_lexGuards
      rw [Bool.eq_false_iff]
      intro hopen
      exact h (List.isPrefixOf_iff_prefix.1 hopen).isInfix
    induction source using pieces_induction (lexGuards guard) with
    | nil => rw [pieces_nil, pieces_nil]
    | tag source tag after hsource htag ih =>
        have hcat := (of_cutTag?_eq_some hsource htag).1
        have hafter : ¬ commentOpen <:+: after := by
          intro hopen
          exact h (hopen.trans ⟨tag, [], by rw [List.append_nil, hcat]⟩)
        rw [pieces_tag hsource htag, ih hafter, pieces_tag hsource ((hcut h).symm.trans htag)]
    | unended source hsource htag =>
        rw [pieces_open hsource htag, pieces_open hsource ((hcut h).symm.trans htag)]
    | line_feed rest ih =>
        have hrest : ¬ commentOpen <:+: rest := by
          intro hopen
          exact h (hopen.trans (List.suffix_cons '\n' rest).isInfix)
        rw [pieces_break, pieces_break, ih hrest]
    | data data rest hne hdata hrest ih =>
        have hbehind : ¬ commentOpen <:+: rest := by
          intro hopen
          exact h (hopen.trans (List.suffix_append data rest).isInfix)
        rw [pieces_data hne hdata hrest, pieces_data hne hdata hrest, ih hbehind]

/-! ## The closing bracket of a tag -/

/-- No lexeme of a list is a closing bracket. -/
def Unclosed (lexemes : List Lexeme) : Prop := ∀ lexeme ∈ lexemes, lexeme.kind ≠ .bracketClose

theorem unclosed_ofChars {kind : Kind} (h : kind ≠ .bracketClose) (chars : List Char) :
    Unclosed (Lexeme.ofChars kind chars) := by
  intro lexeme hmem
  cases chars with
  | nil => simp [Lexeme.ofChars] at hmem
  | cons c chars =>
      obtain rfl : lexeme = ⟨kind, c :: chars⟩ := by simpa [Lexeme.ofChars] using hmem
      exact h

theorem unclosed_bodyKind (form : TagForm) (body : List Char) :
    Unclosed (Lexeme.ofChars form.bodyKind body) := by
  apply unclosed_ofChars
  cases form <;> decide

theorem unclosed_attributeLexemes (written : List Char) : Unclosed (attributeLexemes written) := by
  rw [attributeLexemes]
  split
  · simp only [Unclosed, List.forall_mem_cons]
    exact ⟨by simp, by simp, unclosed_ofChars (by simp) _⟩
  · simp [Unclosed]

theorem unclosed_gapsAndAttributes (guard : Bool) (body : List Char) :
    Unclosed (gapsAndAttributes guard body) := by
  fun_induction gapsAndAttributes guard body with
  | case1 => simp [Unclosed]
  | case2 c rest hc ih => exact List.forall_mem_cons.2 ⟨by simp, ih⟩
  | case3 c rest hc n ih => exact List.forall_mem_append.2 ⟨unclosed_attributeLexemes _, ih⟩

theorem unclosed_nameAndAttributes (guard : Bool) (body : List Char) :
    Unclosed (nameAndAttributes guard body) :=
  List.forall_mem_append.2
    ⟨unclosed_ofChars (by simp) _, unclosed_gapsAndAttributes guard _⟩

/-- The closing bracket is the last lexeme of a tag that ends, and the only one of its kind. -/
theorem exists_endedBody_eq_concat (guard : Bool) (body : List Char) :
    ∃ inside chars, endedBody guard body = inside ++ [⟨.bracketClose, chars⟩] ∧
      Unclosed inside := by
  rw [endedBody]
  split
  · split
    · exact ⟨_, _, rfl, unclosed_nameAndAttributes guard _⟩
    · exact ⟨_, _, rfl, unclosed_nameAndAttributes guard _⟩
  · exact ⟨_, _, rfl, unclosed_bodyKind _ body⟩

theorem tagStop_place_append {inside : List Lexeme} (h : Unclosed inside) (source : List Char)
    (start : Nat) (chars : List Char) (behind : List Lexeme) :
    tagStop source (Lexeme.place start (inside ++ ⟨.bracketClose, chars⟩ :: behind)) =
      start + byteSize (Lexeme.join inside ++ chars) := by
  induction inside generalizing start with
  | nil => simp [tagStop, Lexeme.place]
  | cons lexeme inside ih =>
      obtain ⟨hkind, hinside⟩ := List.forall_mem_cons.1 h
      have hbehind := ih hinside (start + byteSize lexeme.chars)
      rw [tagStop] at hbehind ⊢
      rw [List.cons_append, Lexeme.place, List.find?_cons_of_neg (by simpa using hkind), hbehind]
      simp [Nat.add_assoc]

theorem tagStop_place_unclosed {lexemes : List Lexeme} (h : Unclosed lexemes)
    (source : List Char) (start : Nat) :
    tagStop source (Lexeme.place start lexemes) = byteSize source := by
  induction lexemes generalizing start with
  | nil => rfl
  | cons lexeme lexemes ih =>
      obtain ⟨hkind, hlexemes⟩ := List.forall_mem_cons.1 h
      have hbehind := ih hlexemes (start + byteSize lexeme.chars)
      rw [tagStop] at hbehind ⊢
      rw [Lexeme.place, List.find?_cons_of_neg (by simpa using hkind), hbehind]

/-! ## Slices and pieces -/

section

variable {guard : Bool} {source before tag : List Char}

/-- Lexemes that start no tag are passed over. -/
theorem tagSlices_inner {inside : List Lexeme} (h : Inner inside) (source : List Char)
    (start : Nat) (behind : List Lexeme) :
    tagSlices source (Lexeme.place start (inside ++ behind)) =
      tagSlices source (Lexeme.place (start + byteSize (Lexeme.join inside)) behind) := by
  induction inside generalizing start with
  | nil => rfl
  | cons lexeme inside ih =>
      obtain ⟨hkind, hinside⟩ := List.forall_mem_cons.1 h
      have hfirst : ∀ tokens : List Token, tagSlices source
          (⟨lexeme.kind, String.ofList lexeme.chars, start, start + byteSize lexeme.chars⟩ ::
            tokens) = tagSlices source tokens := by
        intro tokens
        rw [tagSlices]
        cases hlexeme : lexeme.kind <;> simp_all [Kind.startsTag]
      rw [List.cons_append, Lexeme.place, hfirst, ih hinside, Lexeme.join_cons, byteSize_append,
        Nat.add_assoc]

/-- The slice of a tag that ends is the tag. -/
theorem tagSlices_tagLexemes (hjoin : Lexeme.join (tagLexemes guard tag) = tag)
    (before after : List Char) (behind : List Lexeme) :
    tagSlices (before ++ (tag ++ after))
        (Lexeme.place (byteSize before) (tagLexemes guard tag ++ behind)) =
      some tag :: tagSlices (before ++ (tag ++ after))
        (Lexeme.place (byteSize (before ++ tag)) behind) := by
  have hslice : slice? (byteSize before) (byteSize before + byteSize tag)
      (before ++ (tag ++ after)) = some tag := by
    rw [← List.append_assoc]
    exact slice?_append before tag after
  rw [tagLexemes] at hjoin ⊢
  split at hjoin
  · rename_i hcomment
    simp [hcomment, Lexeme.place, tagSlices]
  · rename_i hcomment
    have hinner := inner_of_withinTag (withinTag_endedBody guard tag.tail.dropLast)
    obtain ⟨inside, chars, hbody, hunclosed⟩ :=
      exists_endedBody_eq_concat guard tag.tail.dropLast
    rw [hbody] at hinner hjoin ⊢
    have hsize : byteSize tag = '<'.utf8Size + byteSize (Lexeme.join inside ++ chars) := by
      rw [← hjoin]
      simp
    have hstop : tagStop (before ++ (tag ++ after))
        (Lexeme.place (byteSize before + '<'.utf8Size)
          (inside ++ ⟨.bracketClose, chars⟩ :: behind)) = byteSize before + byteSize tag := by
      rw [tagStop_place_append hunclosed, hsize, Nat.add_assoc]
    have hinside : ∀ start, tagSlices (before ++ (tag ++ after))
        (Lexeme.place start (inside ++ [⟨.bracketClose, chars⟩] ++ behind)) =
          tagSlices (before ++ (tag ++ after))
            (Lexeme.place (start + byteSize (Lexeme.join inside ++ chars)) behind) := by
      intro start
      rw [tagSlices_inner hinner]
      simp
    rw [if_neg hcomment, List.cons_append, Lexeme.place, tagSlices]
    simp only [byteSize_cons, byteSize_nil, Nat.add_zero]
    rw [hinside, List.append_assoc, List.singleton_append, hstop, hslice,
      byteSize_append before tag, hsize, Nat.add_assoc]

/-- The slice of a tag without end goes on to the end of the text. -/
theorem tagSlices_openLexemes (before tag : List Char) :
    tagSlices (before ++ tag) (Lexeme.place (byteSize before) (openLexemes tag)) =
      [some tag] := by
  rw [openLexemes]
  split
  · simp [Lexeme.place, tagSlices]
  · have hbody := unclosed_bodyKind (TagForm.ofBody tag.tail) tag.tail
    have hinner : Inner (Lexeme.ofChars (TagForm.ofBody tag.tail).bodyKind tag.tail) :=
      inner_of_withinTag (withinTag_ofChars (bodyKind_ne _) tag.tail)
    have hslice := slice?_append before tag []
    rw [List.append_nil] at hslice
    have hnone := tagSlices_inner hinner (before ++ tag) (byteSize before + byteSize ['<']) []
    rw [List.append_nil] at hnone
    rw [Lexeme.place, tagSlices]
    simp only [hnone, tagStop_place_unclosed hbody, byteSize_append, hslice]
    rfl

/-- Data in front of a text moves the places of its tags. -/
theorem tagSlices_data {data : List Char} (hdata : '<' ∉ data) (whole source : List Char)
    (start : Nat) :
    tagSlices whole (Lexeme.place start (lexemes guard (data ++ source))) =
      tagSlices whole (Lexeme.place (start + byteSize data) (lexemes guard source)) := by
  obtain ⟨more, rest, -, -, hshort, hlong⟩ := exists_lexemes_data hdata guard source
  have hinner : ∀ text, Inner (Lexeme.ofChars .text text) := fun text =>
    inner_of_withinTag (withinTag_ofChars (by decide) text)
  rw [hshort, hlong, tagSlices_inner (hinner _), tagSlices_inner (hinner _), Lexeme.join_ofChars,
    Lexeme.join_ofChars, byteSize_append, Nat.add_assoc]

/-- The slices of a text are its tags. -/
theorem tagSlices_lexemes (guard : Bool) (before source : List Char) :
    tagSlices (before ++ source) (Lexeme.place (byteSize before) (lexemes guard source)) =
      ((pieces (lexGuards guard) source).filter meetsTag).map some := by
  induction source using pieces_induction (lexGuards guard) generalizing before with
  | nil => simp [Lexeme.place, tagSlices]
  | tag source tag after hsource hcut ih =>
      have hafter := ih (before ++ tag)
      rw [pieces_tag hsource hcut, List.filter_cons_of_pos (meetsTag_of_cutTag? hsource hcut),
        List.map_cons, ← hafter, lexemes_tag hsource hcut, ← (of_cutTag?_eq_some hsource hcut).1,
        tagSlices_tagLexemes (join_tagLexemes hsource hcut), List.append_assoc]
  | unended source hsource hcut =>
      rw [pieces_open hsource hcut, lexemes_open hsource hcut, tagSlices_openLexemes,
        List.filter_cons_of_pos hsource]
      rfl
  | line_feed rest ih =>
      have hlt : '<' ∉ ['\n'] := by decide
      have hrest := ih (before ++ ['\n'])
      rw [byteSize_append, List.append_assoc, List.singleton_append] at hrest
      rw [pieces_break, List.filter_cons_of_neg (by decide), ← hrest, ← List.singleton_append,
        tagSlices_data hlt]
  | data data rest hne hdata hrest ih =>
      have hbehind := ih (before ++ data)
      rw [byteSize_append, List.append_assoc] at hbehind
      rw [pieces_data hne hdata hrest,
        List.filter_cons_of_neg (by simp [meetsTag_of_isData hdata]), ← hbehind,
        tagSlices_data (not_mem_of_isData hdata)]

end

/-! ## Slices and lines -/

/-- The lines of a text that are tags are its tags, put on one line. -/
theorem filter_linesOf (guards : Region → Bool) (source : List Char) :
    (linesOf guards source).filter meetsTag =
      ((pieces guards source).filter meetsTag).map onOneLine := by
  induction source using pieces_induction guards with
  | nil => simp
  | tag source tag after hsource hcut ih =>
      have htag := meetsTag_of_cutTag? hsource hcut
      rw [linesOf_tag hsource hcut, pieces_tag hsource hcut,
        List.filter_cons_of_pos (meetsTag_onOneLine htag), List.filter_cons_of_pos htag, ih,
        List.map_cons]
  | unended source hsource hcut =>
      rw [linesOf_open hsource hcut, pieces_open hsource hcut,
        List.filter_cons_of_pos (meetsTag_onOneLine hsource), List.filter_cons_of_pos hsource]
      rfl
  | line_feed rest ih =>
      rw [linesOf_break, pieces_break, List.filter_cons_of_neg (by decide), ih]
  | data data rest hne hdata hrest ih =>
      have hnone : (layOut data).filter meetsTag = [] := by
        rw [List.filter_eq_nil_iff]
        intro line hline
        rw [layOut_data (meetsTag_of_isData hdata)] at hline
        split at hline
        · simp at hline
        · rw [List.mem_singleton.1 hline, meetsTag_eq_false]
          · simp
          · exact fun hmem => not_mem_of_isData hdata (mem_of_mem_trim hmem)
      rw [linesOf_data hne hdata hrest, pieces_data hne hdata hrest, List.filter_append, hnone, ih,
        List.filter_cons_of_neg (by simp [meetsTag_of_isData hdata]), List.nil_append]

/-- Put on one line, the tags that the tokens of a raw text show are the lines of its document that
start with a `<`, if literals are guarded or the text opens no comment. -/
theorem map_onOneLine_tagSlices {options : ReflowOptions} {raw : String}
    (h : options.guardLiterals = true ∨ ¬ commentOpen <:+: dropMark raw.toList) :
    (tagSlices (dropMark raw.toList)
        (tokenize options.guardLiterals (String.ofList (dropMark raw.toList)))).map
          (Option.map onOneLine) =
      ((reflow options raw).lines.filter fun line => meetsTag line.text.toList).map
        fun line => some line.text.toList := by
  have hslices := tagSlices_lexemes options.guardLiterals [] (dropMark raw.toList)
  have hlines := filter_linesOf (uniform options.guardLiterals) (dropMark raw.toList)
  rw [pieces_lexGuards h] at hslices
  rw [← map_text_reflow, List.filter_map] at hlines
  calc
    (tagSlices (dropMark raw.toList)
        (tokenize options.guardLiterals (String.ofList (dropMark raw.toList)))).map
          (Option.map onOneLine)
      = (((pieces (uniform options.guardLiterals) (dropMark raw.toList)).filter
          meetsTag).map some).map (Option.map onOneLine) := by
        rw [← hslices, tokenize, String.toList_ofList]
        rfl
    _ = (((pieces (uniform options.guardLiterals) (dropMark raw.toList)).filter
          meetsTag).map onOneLine).map some := by
        rw [List.map_map, List.map_map]
        rfl
    _ = ((reflow options raw).lines.filter fun line => meetsTag line.text.toList).map
          fun line => some line.text.toList := by
        rw [← hlines, List.map_map]
        rfl

/-- A value is split at its `><`, and the last tag has no end. -/
theorem map_onOneLine_tagSlices_split :
    ¬ commentOpen <:+: dropMark "\uFEFF<a b=\x27>\x27 c=\x22x><d\n e>t</d ".toList ∧
      (tagSlices (dropMark "\uFEFF<a b=\x27>\x27 c=\x22x><d\n e>t</d ".toList)
          (tokenize false (String.ofList
            (dropMark "\uFEFF<a b=\x27>\x27 c=\x22x><d\n e>t</d ".toList)))).map
              (Option.map onOneLine) =
        [some "<a b=\x27>\x27 c=\x22x>".toList, some "<d e>".toList, some "</d".toList] := by
  have hplain : ¬ commentOpen <:+: dropMark
      "\uFEFF<a b=\x27>\x27 c=\x22x><d\n e>t</d ".toList := by decide +kernel
  refine ⟨hplain, (@map_onOneLine_tagSlices .standard _ (Or.inr hplain)).trans ?_⟩
  decide +kernel

end Markup

end PrettyMarkup
