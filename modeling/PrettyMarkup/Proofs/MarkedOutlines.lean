import PrettyMarkup.Proofs.Outlines
import PrettyMarkup.Proofs.Settling
import PrettyMarkup.Proofs.TagSlices

/-!
# Unguarded outlines depend on layout

Where literals are not guarded, the reader ends a tag at a `><` of a literal and puts a line feed
between the two.  The lexer, which ends a tag there as well, no longer finds a `><` in the rendered
text, so the literal goes on over the line feed and the next tag is a part of it.  This is all
that can happen: the tokens of a raw text and of its rendered document have the same outline
exactly if no literal was split (`outline_tokens_highlight_iff`).

An outline tells where tags start among the characters that are kept (`marked`), and so do the
lines of a text.  A line that is joined to the next one lacks a start that the raw text has.
-/

namespace PrettyMarkup

namespace Markup

open Text

/-! ## Marks in front of tags -/

/-- The characters of an outline, with a mark in front of every tag. -/
def marked (outline : List (Kind × List Char)) : List (Option Char) :=
  outline.flatMap fun entry => (if entry.1.startsTag then [none] else []) ++ entry.2.map some

@[simp] theorem marked_append (a b : List (Kind × List Char)) :
    marked (a ++ b) = marked a ++ marked b := by
  simp [marked]

/-- The characters that lines keep, with a mark in front of every tag. -/
def markedLines (lines : List (List Char)) : List (Option Char) :=
  lines.flatMap fun line => (if meetsTag line then [none] else []) ++ (eraseBlanks line).map some

theorem markedLines_cons (line : List Char) (lines : List (List Char)) :
    markedLines (line :: lines) =
      (if meetsTag line then [none] else []) ++ (eraseBlanks line).map some ++ markedLines lines :=
  rfl

theorem markedLines_append (a b : List (List Char)) :
    markedLines (a ++ b) = markedLines a ++ markedLines b := by
  simp [markedLines]

/-- Data has no mark. -/
theorem marked_addText (kept : List Char) (outline : List (Kind × List Char)) :
    marked (addText kept outline) = kept.map some ++ marked outline := by
  cases kept with
  | nil => rfl
  | cons c kept =>
      rcases outline with _ | ⟨⟨kind, chars⟩, outline⟩
      · simp [addText, marked, Kind.startsTag]
      · cases kind <;> simp [addText, marked, Kind.startsTag]

theorem marked_outline_of_inner {lexeme : Lexeme} (h : lexeme.kind.startsTag = false) :
    marked lexeme.outline = (eraseBlanks lexeme.chars).map some := by
  rw [Lexeme.outline]
  split
  · rename_i hempty
    rw [List.isEmpty_iff.1 hempty]
    rfl
  · simp [marked, h]

theorem marked_outlineOf_inner {lexemes : List Lexeme} (h : Inner lexemes) :
    marked (outlineOf lexemes) = (eraseBlanks (Lexeme.join lexemes)).map some := by
  induction lexemes with
  | nil => rfl
  | cons lexeme lexemes ih =>
      obtain ⟨hlexeme, hlexemes⟩ := List.forall_mem_cons.1 h
      rw [outlineOf_cons, marked_append, marked_outline_of_inner hlexeme, ih hlexemes,
        Lexeme.join_cons, eraseBlanks_append, List.map_append]

/-- Lexemes of which only the first one starts a tag have one mark, at their front. -/
theorem marked_outlineOf_tag {first : Lexeme} {rest : List Lexeme}
    (hfirst : first.kind.startsTag = true) (hmeets : meetsTag first.chars = true)
    (hrest : Inner rest) :
    marked (outlineOf (first :: rest)) =
      none :: (eraseBlanks (Lexeme.join (first :: rest))).map some := by
  obtain ⟨kind, chars⟩ := first
  obtain ⟨chars, rfl⟩ := exists_of_meetsTag hmeets
  rw [outlineOf_cons, outline_cons (by decide), marked_append, marked_outlineOf_inner hrest,
    Lexeme.join_cons, eraseBlanks_append, eraseBlanks_cons (by decide), List.map_append]
  simp [marked, hfirst]

section

variable {tag : List Char} (hmeets : meetsTag tag = true)

include hmeets

theorem marked_tagLexemes (guard : Bool) :
    marked (outlineOf (tagLexemes guard tag)) =
      none :: (eraseBlanks (Lexeme.join (tagLexemes guard tag))).map some := by
  rw [tagLexemes]
  split
  · exact marked_outlineOf_tag rfl hmeets (by simp [Inner])
  · exact marked_outlineOf_tag rfl rfl (inner_of_withinTag (withinTag_endedBody guard _))

theorem marked_openLexemes :
    marked (outlineOf (openLexemes tag)) =
      none :: (eraseBlanks (Lexeme.join (openLexemes tag))).map some := by
  rw [openLexemes]
  split
  · exact marked_outlineOf_tag rfl hmeets (by simp [Inner])
  · exact marked_outlineOf_tag rfl rfl (inner_of_withinTag (withinTag_ofChars (bodyKind_ne _) _))

theorem markedLines_onOneLine (lines : List (List Char)) :
    markedLines (onOneLine tag :: lines) =
      none :: (eraseBlanks tag).map some ++ markedLines lines := by
  rw [markedLines_cons, if_pos (meetsTag_onOneLine hmeets), eraseBlanks_onOneLine]
  rfl

end

/-- Tags start in the outline of a text where the lines start that the lexer's guards give. -/
theorem marked_outlineOf_lexemes (guard : Bool) (source : List Char) :
    marked (outlineOf (lexemes guard source)) = markedLines (linesOf (lexGuards guard) source) := by
  induction source using pieces_induction (lexGuards guard) with
  | nil => rw [lexemes_nil, linesOf_nil]; rfl
  | tag source tag after hsource hcut ih =>
      have hmeets := meetsTag_of_cutTag? hsource hcut
      rw [lexemes_tag hsource hcut, outlineOf_append, marked_append, marked_tagLexemes hmeets,
        join_tagLexemes hsource hcut, ih, linesOf_tag hsource hcut, markedLines_onOneLine hmeets]
  | unended source hsource hcut =>
      have hjoin := join_lexemes guard source
      rw [lexemes_open hsource hcut] at hjoin ⊢
      rw [marked_openLexemes hsource, hjoin, linesOf_open hsource hcut,
        markedLines_onOneLine hsource]
      simp [markedLines]
  | line_feed rest ih =>
      have hlt : '<' ∉ ['\n'] := by decide
      rw [← List.singleton_append, outlineOf_data hlt, List.singleton_append, linesOf_break, ← ih]
      rfl
  | data data rest hne hdata hrest ih =>
      have hlt : '<' ∉ data := not_mem_of_isData hdata
      have hmeets : meetsTag (trim data) = false :=
        meetsTag_eq_false fun hmem => hlt (mem_of_mem_trim hmem)
      rw [outlineOf_data hlt, marked_addText, ih, linesOf_data hne hdata hrest,
        layOut_data (meetsTag_eq_false hlt)]
      split
      · rename_i hempty
        rw [← eraseBlanks_trim, List.isEmpty_iff.1 hempty]
        rfl
      · rw [List.singleton_append, markedLines_cons, hmeets, eraseBlanks_trim]
        rfl

/-- Behind the front of a split literal the raw text has a mark, and the joined line has a
character. -/
theorem markedLines_joined_ne {front rest more : List (List Char)}
    {line next run inside : List Char} (hline : meetsTag line = true)
    (hnext : meetsTag next = true) (hrun : AllBlank run) (hinside : eraseBlanks inside ≠ []) :
    markedLines (front ++ onOneLine (line ++ (run ++ inside)) :: rest) ≠
      markedLines (front ++ line :: next :: more) := by
  obtain ⟨c, kept, hkept⟩ := List.exists_cons_of_ne_nil hinside
  rw [markedLines_append, markedLines_append, Ne, List.append_cancel_left_eq,
    markedLines_onOneLine (meetsTag_append_of_meetsTag hline _), markedLines_cons, if_pos hline,
    markedLines_cons, if_pos hnext, eraseBlanks_append, eraseBlanks_append,
    eraseBlanks_eq_nil_iff.2 hrun, hkept]
  simp

/-! ## Highlighted texts -/

/-- The lexer, which always guards comments, splits no more than the reader. -/
theorem outlineOf_lexemes_of_unsplit_uniform {guard : Bool} {source : List Char}
    (h : Unsplit (uniform guard) (pieces (uniform true) source)) :
    outlineOf (lexemes guard source) = outlineOfLines guard (linesOf (uniform guard) source) := by
  have hlexer : Unsplit (lexGuards guard) (pieces (uniform true) source) := by
    rcases h with hguard | hnone
    · obtain rfl : guard = true := congrFun hguard .text
      exact Or.inl lexGuards_true
    · exact Or.inr hnone
  rw [outlineOf_lexemes_of_unsplit hlexer, linesOf, linesOf, pieces_of_unsplit h]

section

variable {options : ReflowOptions} (hunit : AllBlank options.indentUnit.toList) {raw : String}

include hunit

/-- Where no literal is split, a raw text and its rendered document have the same outline. -/
theorem outline_tokens_highlight_eq (hmark : raw.toList.head? ≠ some '\uFEFF')
    (h : KeepsLiterals options raw) :
    outline (highlight options raw).tokens = outline (tokenize options.guardLiterals raw) := by
  have hlines := (linesOf_render_eq_iff hunit raw).2 h
  have hraw := (keepsLiterals_iff options raw).1 h
  rw [dropMark_of_head? hmark] at hlines hraw
  have hrendered : Unsplit (uniform options.guardLiterals)
      (pieces (uniform true) (reflow options raw).render.toList) := by
    cases hguard : options.guardLiterals with
    | true => exact Or.inl rfl
    | false => exact unsplit_of_holdsSplit (holdsSplit_render hguard hunit raw)
  calc
    outline (highlight options raw).tokens
      = outlineOfLines options.guardLiterals
          (linesOf (uniform options.guardLiterals) (reflow options raw).render.toList) := by
        rw [← outlineOf_lexemes_of_unsplit_uniform hrendered, ← outline_tokenize]
        rfl
    _ = outlineOfLines options.guardLiterals
          (linesOf (uniform options.guardLiterals) raw.toList) := by rw [hlines]
    _ = outline (tokenize options.guardLiterals raw) := by
        rw [outline_tokenize, outlineOf_lexemes_of_unsplit_uniform hraw]

/-- A split literal lacks the start of a tag that the raw text has. -/
theorem outline_tokens_highlight_ne (hcomment : ¬commentOpen <:+: raw.toList)
    (hmark : raw.toList.head? ≠ some '\uFEFF') (h : ¬KeepsLiterals options raw) :
    outline (highlight options raw).tokens ≠ outline (tokenize options.guardLiterals raw) := by
  obtain ⟨front, line, next, more, hcat, hpoint⟩ := exists_splitLines h
  obtain ⟨settled, first, second, others, hlines, hsettled, hopen, hnext⟩ :=
    exists_lines_of_split hcat hpoint
  obtain ⟨inside, rest, hjoined, hinside⟩ :=
    exists_linesOf_joined hunit (hsettled (lexGuards options.guardLiterals)) (hopen _) hnext others
  have hraw : linesOf (lexGuards options.guardLiterals) raw.toList =
      settled.map (fun line => line.text.toList) ++
        first.text.toList :: second.text.toList :: others.map fun line => line.text.toList := by
    have htext := map_text_reflow options raw
    rw [hlines, dropMark_of_head? hmark, List.map_append, List.map_cons, List.map_cons] at htext
    rw [htext, linesOf, linesOf, pieces_lexGuards (Or.inr hcomment)]
  have hrun : AllBlank ('\n' :: second.indent options.indentUnit.toList) :=
    allBlank_cons.2 ⟨by decide, second.allBlank_indent hunit⟩
  intro heq
  apply markedLines_joined_ne (hopen (uniform true)).isOpen.meetsTag_eq hnext hrun hinside
  calc
    markedLines (settled.map (fun line => line.text.toList) ++
        onOneLine (first.text.toList ++ ('\n' :: second.indent options.indentUnit.toList ++
          inside)) :: rest)
      = marked (outlineOf (lexemes options.guardLiterals (reflow options raw).render.toList)) := by
        rw [marked_outlineOf_lexemes, toList_render_reflow, hlines, hjoined]
    _ = marked (outline (highlight options raw).tokens) := by
        rw [← outline_tokenize]
        rfl
    _ = marked (outlineOf (lexemes options.guardLiterals raw.toList)) := by
        rw [heq, outline_tokenize]
    _ = _ := by rw [marked_outlineOf_lexemes, hraw]

/-- In a text without comments and without a mark at its front the outline of the tokens outlasts
the layout exactly if no literal is split. -/
theorem outline_tokens_highlight_iff (hcomment : ¬commentOpen <:+: raw.toList)
    (hmark : raw.toList.head? ≠ some '\uFEFF') :
    outline (highlight options raw).tokens = outline (tokenize options.guardLiterals raw) ↔
      KeepsLiterals options raw := by
  constructor
  · intro heq
    by_contra h
    exact outline_tokens_highlight_ne hunit hcomment hmark h heq
  · exact outline_tokens_highlight_eq hunit hmark

end

/-- A value that goes on over its `>` and a section that holds one are kept as they are. -/
theorem outline_tokens_highlight_value :
    AllBlank ReflowOptions.standard.indentUnit.toList ∧
      ¬commentOpen <:+: "<a b=\x22x>y\x22><![CDATA[ ]>]]></a>".toList ∧
      outline (highlight .standard "<a b=\x22x>y\x22><![CDATA[ ]>]]></a>").tokens =
        outline (tokenize false "<a b=\x22x>y\x22><![CDATA[ ]>]]></a>") := by
  have hunit : AllBlank ReflowOptions.standard.indentUnit.toList := by decide
  have hcomment : ¬commentOpen <:+: "<a b=\x22x>y\x22><![CDATA[ ]>]]></a>".toList := by
    decide +kernel
  refine ⟨hunit, hcomment, ?_⟩
  exact (outline_tokens_highlight_iff hunit hcomment (by decide)).2 (by decide +kernel)

/-- A value that the reader ends in front of a `<` goes on in the rendered text: its tag and the
one behind it are a single tag without end. -/
theorem outline_tokens_highlight_split :
    ¬commentOpen <:+: "<a b=\x22x><c/>".toList ∧
      "<a b=\x22x><c/>".toList.head? ≠ some '\uFEFF' ∧
      outline (highlight .standard "<a b=\x22x><c/>").tokens =
        [(.bracketOpen, "<".toList), (.tagOpenName, "ab=\x22x><c/>".toList)] ∧
      outline (tokenize false "<a b=\x22x><c/>") =
        [(.bracketOpen, "<".toList), (.tagOpenName, "a".toList), (.attributeName, "b".toList),
          (.equals, "=".toList), (.attributeValue, "\x22x".toList), (.bracketClose, ">".toList),
          (.bracketOpen, "<".toList), (.tagOpenName, "c".toList),
          (.bracketClose, "/>".toList)] := by
  decide +kernel

end Markup

end PrettyMarkup
