import PrettyMarkup.Markup.Highlight
import PrettyMarkup.Proofs.SplitLiterals
import PrettyMarkup.Proofs.TagLexemes

/-!
# Where tags start

Lines and tokens of a highlighted text each say where its tags start: the lines that start with
a `<`, and the tokens of opening brackets and comments.  Both are compared with the pieces of the
rendered text.  The tokens always start where the pieces of the lexer's own guards do
(`tagTokenStarts_tokenize`); the lines do so as long as they are settled
(`tagPieceStarts_rendered`), and the line behind a split literal does not.
-/

namespace PrettyMarkup

namespace Markup

open Text

/-! ## Tokens -/

/-- Whether a token of a kind is the first one of a tag. -/
def Kind.startsTag (kind : Kind) : Bool := kind == .bracketOpen || kind == .comment

/-- The places at which tokens start a tag. -/
def tagTokenStarts (tokens : List Token) : List Nat :=
  (tokens.filter fun token => token.kind.startsTag).map Token.start

/-- No lexeme of a list starts a tag. -/
def Inner (lexemes : List Lexeme) : Prop := ∀ lexeme ∈ lexemes, lexeme.kind.startsTag = false

theorem inner_of_withinTag {lexemes : List Lexeme} (h : ∀ lexeme ∈ lexemes, WithinTag lexeme) :
    Inner lexemes := by
  intro lexeme hmem
  obtain ⟨hbracket, hcomment⟩ := (h lexeme hmem).kind_ne
  simp [Kind.startsTag, hbracket, hcomment]

/-- Only the first lexeme of a tag starts one. -/
theorem exists_tagLexemes_eq_cons (guard : Bool) (tag : List Char) :
    ∃ first rest, tagLexemes guard tag = first :: rest ∧ first.kind.startsTag = true ∧
      Inner rest := by
  rw [tagLexemes]
  split
  · exact ⟨_, _, rfl, rfl, by simp [Inner]⟩
  · exact ⟨_, _, rfl, rfl, inner_of_withinTag (withinTag_endedBody guard _)⟩

theorem exists_openLexemes_eq_cons (tag : List Char) :
    ∃ first rest, openLexemes tag = first :: rest ∧ first.kind.startsTag = true ∧ Inner rest := by
  rw [openLexemes]
  split
  · exact ⟨_, _, rfl, rfl, by simp [Inner]⟩
  · exact ⟨_, _, rfl, rfl, inner_of_withinTag (withinTag_ofChars (bodyKind_ne _) _)⟩

/-- The places at which lexemes start a tag, the first of them after `offset` bytes. -/
def tagLexemeStarts (offset : Nat) (lexemes : List Lexeme) : List Nat :=
  tagTokenStarts (Lexeme.place offset lexemes)

theorem tagLexemeStarts_append (offset : Nat) (a b : List Lexeme) :
    tagLexemeStarts offset (a ++ b) =
      tagLexemeStarts offset a ++ tagLexemeStarts (offset + byteSize (Lexeme.join a)) b := by
  simp [tagLexemeStarts, tagTokenStarts, Lexeme.place_append]

theorem tagLexemeStarts_cons (offset : Nat) (lexeme : Lexeme) (lexemes : List Lexeme) :
    tagLexemeStarts offset (lexeme :: lexemes) =
      (if lexeme.kind.startsTag then [offset] else []) ++
        tagLexemeStarts (offset + byteSize lexeme.chars) lexemes := by
  simp only [tagLexemeStarts, tagTokenStarts, Lexeme.place, List.filter_cons]
  split <;> rfl

theorem tagLexemeStarts_inner (offset : Nat) {lexemes : List Lexeme} (h : Inner lexemes) :
    tagLexemeStarts offset lexemes = [] := by
  induction lexemes generalizing offset with
  | nil => rfl
  | cons lexeme lexemes ih =>
      obtain ⟨hkind, h⟩ := List.forall_mem_cons.1 h
      rw [tagLexemeStarts_cons, ih _ h, hkind]
      rfl

/-! ## Pieces -/

/-- The places at which pieces are tags, the first piece after `offset` bytes. -/
def tagPieceStarts : Nat → List (List Char) → List Nat
  | _, [] => []
  | offset, piece :: pieces =>
    (if meetsTag piece then [offset] else []) ++ tagPieceStarts (offset + byteSize piece) pieces

@[simp] theorem tagPieceStarts_nil (offset : Nat) : tagPieceStarts offset [] = [] := rfl

theorem tagPieceStarts_cons (offset : Nat) (piece : List Char) (pieces : List (List Char)) :
    tagPieceStarts offset (piece :: pieces) =
      (if meetsTag piece then [offset] else []) ++
        tagPieceStarts (offset + byteSize piece) pieces := rfl

theorem le_of_mem_tagPieceStarts {offset n : Nat} {pieces : List (List Char)}
    (h : n ∈ tagPieceStarts offset pieces) : offset ≤ n := by
  induction pieces generalizing offset with
  | nil => simp at h
  | cons piece pieces ih =>
      rw [tagPieceStarts_cons, List.mem_append] at h
      rcases h with h | h
      · split at h
        · rw [List.mem_singleton.1 h]
        · simp at h
      · have := ih h
        omega

/-- No piece starts inside another. -/
theorem not_mem_tagPieceStarts_cons {offset n : Nat} {piece : List Char}
    {pieces : List (List Char)} (hstart : offset < n) (hstop : n < offset + byteSize piece) :
    n ∉ tagPieceStarts offset (piece :: pieces) := by
  intro hmem
  rw [tagPieceStarts_cons, List.mem_append] at hmem
  rcases hmem with hmem | hmem
  · split at hmem
    · have hsame := List.mem_singleton.1 hmem
      omega
    · simp at hmem
  · have hle := le_of_mem_tagPieceStarts hmem
    omega

/-- In front of a text, data moves the places of its tags. -/
theorem tagPieceStarts_data (guards : Region → Bool) {data : List Char} (hdata : '<' ∉ data)
    (offset : Nat) (source : List Char) :
    tagPieceStarts offset (pieces guards (data ++ source)) =
      tagPieceStarts (offset + byteSize data) (pieces guards source) := by
  induction data generalizing offset with
  | nil => rfl
  | cons c data ih =>
      simp only [List.mem_cons, not_or] at hdata
      have hlt : c ≠ '<' := Ne.symm hdata.1
      obtain ⟨more, rest, hmore, -, hlong, hshort⟩ :=
        exists_pieces_cons guards hlt (data ++ source)
      have hmeets : meetsTag more = false := meetsTag_eq_false hmore
      have hmeets' : meetsTag (c :: more) = false := by simp [meetsTag, hlt]
      have hfirst : tagPieceStarts offset (pieces guards (c :: (data ++ source))) =
          tagPieceStarts (offset + c.utf8Size) (pieces guards (data ++ source)) := by
        rw [hlong, hshort, tagPieceStarts_cons, hmeets']
        cases more with
        | nil => simp
        | cons d more => simp [tagPieceStarts_cons, hmeets, Nat.add_assoc]
      rw [List.cons_append, hfirst, ih hdata.2, byteSize_cons, Nat.add_assoc]

theorem tagPieceStarts_break (guards : Region → Bool) (offset : Nat) (rest : List Char) :
    tagPieceStarts offset (pieces guards ('\n' :: rest)) =
      tagPieceStarts (offset + 1) (pieces guards rest) := by
  have hlt : '<' ∉ ['\n'] := by decide
  exact tagPieceStarts_data guards hlt offset rest

/-- In front of a text, data moves the places at which its lexemes start tags. -/
theorem tagLexemeStarts_data (guard : Bool) {data : List Char} (hdata : '<' ∉ data) (offset : Nat)
    (source : List Char) :
    tagLexemeStarts offset (lexemes guard (data ++ source)) =
      tagLexemeStarts (offset + byteSize data) (lexemes guard source) := by
  obtain ⟨more, rest, -, -, hshort, hlong⟩ := exists_lexemes_data hdata guard source
  have hinner : ∀ text, Inner (Lexeme.ofChars .text text) := fun text =>
    inner_of_withinTag (withinTag_ofChars (by decide) text)
  rw [hshort, hlong, tagLexemeStarts_append, tagLexemeStarts_append,
    tagLexemeStarts_inner _ (hinner _), tagLexemeStarts_inner _ (hinner _), Lexeme.join_ofChars,
    Lexeme.join_ofChars, byteSize_append, Nat.add_assoc]

/-- The lexemes of a text start tags where its pieces are tags. -/
theorem tagLexemeStarts_lexemes (guard : Bool) (offset : Nat) (source : List Char) :
    tagLexemeStarts offset (lexemes guard source) =
      tagPieceStarts offset (pieces (lexGuards guard) source) := by
  induction source using pieces_induction (lexGuards guard) generalizing offset with
  | nil => simp [tagLexemeStarts, tagTokenStarts, Lexeme.place]
  | tag source tag after hsource hcut ih =>
      obtain ⟨first, rest, hlexemes, hfirst, hrest⟩ := exists_tagLexemes_eq_cons guard tag
      have htag : tagLexemeStarts offset (tagLexemes guard tag) = [offset] := by
        rw [hlexemes, tagLexemeStarts_cons, hfirst, tagLexemeStarts_inner _ hrest]
        rfl
      rw [lexemes_tag hsource hcut, tagLexemeStarts_append, htag, join_tagLexemes hsource hcut, ih,
        pieces_tag hsource hcut, tagPieceStarts_cons, meetsTag_of_cutTag? hsource hcut]
      rfl
  | unended source hsource hcut =>
      obtain ⟨first, rest, hlexemes, hfirst, hrest⟩ := exists_openLexemes_eq_cons source
      rw [lexemes_open hsource hcut, hlexemes, tagLexemeStarts_cons, hfirst,
        tagLexemeStarts_inner _ hrest, pieces_open hsource hcut, tagPieceStarts_cons, hsource]
      rfl
  | line_feed rest ih =>
      have hlt : '<' ∉ ['\n'] := by decide
      rw [← List.singleton_append, tagLexemeStarts_data guard hlt, ih, tagPieceStarts_data _ hlt]
  | data data rest hne hdata hrest ih =>
      have hlt : '<' ∉ data := not_mem_of_isData hdata
      rw [tagLexemeStarts_data guard hlt, ih, tagPieceStarts_data _ hlt]

/-- The tokens of a text start tags where its pieces are tags. -/
theorem tagTokenStarts_tokenize (guard : Bool) (source : String) :
    tagTokenStarts (tokenize guard source) =
      tagPieceStarts 0 (pieces (lexGuards guard) source.toList) :=
  tagLexemeStarts_lexemes guard 0 source.toList

/-! ## Lines -/

/-- The places at which lines start with a `<` behind their indents, the first line after `offset`
bytes. -/
def tagLineStarts (unit : List Char) : Nat → List Line → List Nat
  | _, [] => []
  | offset, line :: lines =>
    (if meetsTag line.text.toList then [offset + byteSize (line.indent unit)] else []) ++
      tagLineStarts unit (offset + byteSize (line.render unit) + 1) lines

/-- Lines as they stand in front of others. -/
def renderedFront (unit : List Char) (lines : List Line) : List Char :=
  lines.flatMap fun line => line.render unit ++ ['\n']

theorem utf8Size_line_feed : '\n'.utf8Size = 1 := by decide

section TagLineStarts

variable {unit : List Char}

theorem tagLineStarts_cons (offset : Nat) (line : Line) (lines : List Line) :
    tagLineStarts unit offset (line :: lines) =
      (if meetsTag line.text.toList then [offset + byteSize (line.indent unit)] else []) ++
        tagLineStarts unit (offset + byteSize (line.render unit) + 1) lines := rfl

theorem renderedFront_cons (line : Line) (lines : List Line) :
    renderedFront unit (line :: lines) = line.render unit ++ '\n' :: renderedFront unit lines := by
  simp [renderedFront]

theorem byteSize_renderedFront_cons (line : Line) (lines : List Line) :
    byteSize (renderedFront unit (line :: lines)) =
      byteSize (line.render unit) + 1 + byteSize (renderedFront unit lines) := by
  rw [renderedFront_cons, byteSize_append, byteSize_cons, utf8Size_line_feed, Nat.add_assoc]

theorem rendered_append (front : List Line) {lines : List Line} (h : lines ≠ []) :
    rendered unit (front ++ lines) = renderedFront unit front ++ rendered unit lines := by
  induction front with
  | nil => rfl
  | cons line front ih =>
      rw [List.cons_append, rendered_cons (by simp [h]), ih, renderedFront_cons, List.append_assoc,
        List.cons_append]

theorem tagLineStarts_append (offset : Nat) (front lines : List Line) :
    tagLineStarts unit offset (front ++ lines) =
      tagLineStarts unit offset front ++
        tagLineStarts unit (offset + byteSize (renderedFront unit front)) lines := by
  induction front generalizing offset with
  | nil => rfl
  | cons line front ih =>
      rw [List.cons_append, tagLineStarts_cons, tagLineStarts_cons, ih,
        byteSize_renderedFront_cons, List.append_assoc]
      simp only [Nat.add_assoc]

/-- The places are those of the lines in the rendered text, behind the text in front of them. -/
theorem mem_tagLineStarts_iff {offset n : Nat} {lines : List Line} :
    n ∈ tagLineStarts unit offset lines ↔ ∃ front line rest,
      lines = front ++ line :: rest ∧ meetsTag line.text.toList = true ∧
        n = offset + byteSize (renderedFront unit front ++ line.indent unit) := by
  constructor
  · intro h
    induction lines generalizing offset with
    | nil => simp [tagLineStarts] at h
    | cons line lines ih =>
        rw [tagLineStarts_cons, List.mem_append] at h
        rcases h with h | h
        · split at h
          · rename_i hmeets
            exact ⟨[], line, lines, rfl, hmeets, List.mem_singleton.1 h⟩
          · simp at h
        · obtain ⟨front, next, rest, rfl, hmeets, rfl⟩ := ih h
          refine ⟨line :: front, next, rest, rfl, hmeets, ?_⟩
          simp only [byteSize_append, byteSize_renderedFront_cons]
          omega
  · rintro ⟨front, line, rest, rfl, hmeets, rfl⟩
    rw [tagLineStarts_append, tagLineStarts_cons, hmeets, byteSize_append]
    simp [Nat.add_assoc]

theorem lt_of_mem_tagLineStarts {offset n : Nat} {front : List Line}
    (h : n ∈ tagLineStarts unit offset front) :
    n < offset + byteSize (renderedFront unit front) := by
  induction front generalizing offset with
  | nil => simp [tagLineStarts] at h
  | cons line front ih =>
      rw [tagLineStarts_cons, List.mem_append] at h
      rw [byteSize_renderedFront_cons, Line.render_eq, byteSize_append]
      rcases h with h | h
      · split at h
        · rw [List.mem_singleton.1 h]
          omega
        · simp at h
      · have := ih h
        rw [Line.render_eq, byteSize_append] at this
        omega

section Settled

variable {guards : Region → Bool}

theorem tagPieceStarts_settled {line : List Char} (h : Settled guards line) (offset : Nat)
    (rest : List Char) :
    tagPieceStarts offset (pieces guards (line ++ rest)) =
      (if meetsTag line then [offset] else []) ++
        tagPieceStarts (offset + byteSize line) (pieces guards rest) := by
  cases h with
  | tag hclosed hline hsplit =>
      have hmeets := meetsTag_append_of_meetsTag hclosed.meetsTag_eq rest
      rw [pieces_tag hmeets (hclosed.cutTag?_append hsplit rest), tagPieceStarts_cons]
  | data hne hdata hline =>
      rw [tagPieceStarts_data guards (not_mem_of_isData hdata), meetsTag_of_isData hdata]
      rfl

variable (hunit : AllBlank unit)

include hunit

/-- In front of a line its indent moves the places of tags. -/
theorem tagPieceStarts_indent (guards : Region → Bool) (line : Line) (offset : Nat)
    (source : List Char) :
    tagPieceStarts offset (pieces guards (line.indent unit ++ source)) =
      tagPieceStarts (offset + byteSize (line.indent unit)) (pieces guards source) :=
  tagPieceStarts_data guards (not_mem_of_allBlank (line.allBlank_indent hunit) (by decide)) offset
    source

/-- A rendered line that is settled starts a tag behind its indent, or none. -/
theorem tagPieceStarts_render_append {line : Line} (hline : Settled guards line.text.toList)
    (offset : Nat) (rest : List Char) :
    tagPieceStarts offset (pieces guards (line.render unit ++ rest)) =
      (if meetsTag line.text.toList then [offset + byteSize (line.indent unit)] else []) ++
        tagPieceStarts (offset + byteSize (line.render unit)) (pieces guards rest) := by
  rw [Line.render_eq, List.append_assoc, tagPieceStarts_indent hunit, tagPieceStarts_settled hline,
    byteSize_append, Nat.add_assoc]

/-- Settled lines start tags where their pieces are tags. -/
theorem tagPieceStarts_rendered_append {front : List Line}
    (hfront : ∀ line ∈ front, Settled guards line.text.toList) (offset : Nat) (lines : List Line) :
    tagPieceStarts offset (pieces guards (rendered unit (front ++ lines))) =
      tagLineStarts unit offset front ++
        tagPieceStarts (offset + byteSize (renderedFront unit front))
          (pieces guards (rendered unit lines)) := by
  induction front generalizing offset with
  | nil => rfl
  | cons line front ih =>
      obtain ⟨hline, hfront⟩ := List.forall_mem_cons.1 hfront
      obtain ⟨rest, hrendered, hrest⟩ := exists_rendered_cons unit line (front ++ lines)
      -- Behind the line stand the other lines, or nothing.
      have hbehind : ∀ offset, tagPieceStarts offset (pieces guards rest) =
          tagPieceStarts (offset + 1) (pieces guards (rendered unit (front ++ lines))) := by
        intro offset
        rcases hrest with ⟨rfl, hnil⟩ | rfl
        · simp [hnil]
        · exact tagPieceStarts_break guards offset _
      rw [List.cons_append, hrendered, tagPieceStarts_render_append hunit hline, hbehind,
        ih hfront, tagLineStarts_cons, List.append_assoc, byteSize_renderedFront_cons]
      simp only [Nat.add_assoc]

/-- So do lines that are settled up to a tag without end. -/
theorem tagPieceStarts_rendered {lines : List Line} {front last : List (List Char)}
    (hlines : lines.map (fun line => line.text.toList) = front ++ last)
    (hfront : ∀ line ∈ front, Settled guards line)
    (hlast : last = [] ∨ ∃ line, last = [line] ∧ Unended guards line) (offset : Nat) :
    tagPieceStarts offset (pieces guards (rendered unit lines)) =
      tagLineStarts unit offset lines := by
  obtain ⟨settled, rest, rfl, rfl, hrest⟩ := List.map_eq_append_iff.1 hlines
  have hsettled : ∀ line ∈ settled, Settled guards line.text.toList := by
    intro line hline
    exact hfront _ (List.mem_map_of_mem hline)
  rw [tagPieceStarts_rendered_append hunit hsettled, tagLineStarts_append,
    List.append_cancel_left_eq]
  rcases hlast with rfl | ⟨line, rfl, hline⟩
  · rw [List.map_eq_nil_iff.1 hrest, rendered_nil, pieces_nil]
    rfl
  · obtain ⟨line, rfl, rfl⟩ := List.map_eq_singleton_iff.1 hrest
    rw [rendered_singleton, Line.render_eq, tagPieceStarts_indent hunit,
      pieces_open hline.isOpen.meetsTag_eq hline.cutTag?_eq]
    rfl

/-- No tag of the rendered text starts at the line behind a split literal. -/
theorem exists_mem_tagLineStarts {lines : List Line} {front more : List (List Char)}
    {line next : List Char}
    (hlines : lines.map (fun line => line.text.toList) = front ++ line :: next :: more)
    (hsplit : SplitLines front line next) (guards : Region → Bool) :
    ∃ n ∈ tagLineStarts unit 0 lines,
      n ∉ tagPieceStarts 0 (pieces guards (rendered unit lines)) := by
  obtain ⟨settled, first, second, others, rfl, hsettled, hopen, hnext⟩ :=
    exists_lines_of_split hlines hsplit
  obtain ⟨text, inside, more, hrendered, hpieces, hinside⟩ :=
    exists_pieces_rendered hunit (hopen guards) hnext others
  refine ⟨byteSize (renderedFront unit (settled ++ [first]) ++ second.indent unit), ?_, ?_⟩
  · exact mem_tagLineStarts_iff.2
      ⟨settled ++ [first], second, others, by simp, hnext, (Nat.zero_add _).symm⟩
  · have hsize : byteSize inside ≠ 0 := by
      rw [Ne, byteSize_eq_zero_iff]
      rintro rfl
      exact hinside rfl
    have hplace : byteSize (renderedFront unit (settled ++ [first]) ++ second.indent unit) =
        byteSize (renderedFront unit settled) + byteSize (first.indent unit) +
          byteSize first.text.toList + 1 + byteSize (second.indent unit) := by
      simp [renderedFront, Line.render_eq, utf8Size_line_feed, Nat.add_assoc]
    rw [hplace, tagPieceStarts_rendered_append hunit (hsettled guards), hrendered,
      tagPieceStarts_indent hunit, hpieces]
    intro hmem
    rcases List.mem_append.1 hmem with hmem | hmem
    · -- The settled lines stand in front of the place.
      have hlt := lt_of_mem_tagLineStarts hmem
      omega
    · -- The joined tag starts before the place and stops behind it.
      apply not_mem_tagPieceStarts_cons _ _ hmem
      · omega
      · simp only [byteSize_append, byteSize_cons, utf8Size_line_feed]
        omega

end Settled

end TagLineStarts

/-! ## Highlighted texts -/

/-- The places of a highlighted text at which lines start with a `<` behind their indents. -/
def Highlighted.tagLineStarts (highlighted : Highlighted) : List Nat :=
  Markup.tagLineStarts highlighted.document.indentUnit.toList 0 highlighted.document.lines

/-- At each of the places a line stands in the text. -/
theorem exists_of_mem_tagLineStarts (options : ReflowOptions) (raw : String) {n : Nat}
    (h : n ∈ (highlight options raw).tagLineStarts) :
    ∃ before line after, line ∈ (highlight options raw).document.lines ∧
      meetsTag line.text.toList = true ∧ byteSize before = n ∧
      (highlight options raw).text.toList = before ++ (line.text.toList ++ after) := by
  obtain ⟨front, line, lines, hlines, hmeets, rfl⟩ := mem_tagLineStarts_iff.1 h
  obtain ⟨rest, hrendered, -⟩ :=
    exists_rendered_cons (highlight options raw).document.indentUnit.toList line lines
  refine ⟨_, line, rest, by rw [hlines]; simp, hmeets, (Nat.zero_add _).symm, ?_⟩
  have htext : (highlight options raw).text.toList =
      rendered (highlight options raw).document.indentUnit.toList
        (highlight options raw).document.lines := toList_render _
  rw [htext, hlines, rendered_append front (by simp), hrendered, Line.render_eq]
  simp

/-- Lines and tokens of a highlighted text agree on where tags start exactly if no literal was
split. -/
theorem tagLineStarts_highlight_iff {options : ReflowOptions}
    (hunit : AllBlank options.indentUnit.toList) (raw : String) :
    (∀ n, n ∈ (highlight options raw).tagLineStarts ↔
        n ∈ tagTokenStarts (highlight options raw).tokens) ↔
      KeepsLiterals options raw := by
  have hlines : (highlight options raw).tagLineStarts =
      tagLineStarts options.indentUnit.toList 0 (reflow options raw).lines := rfl
  have htokens : tagTokenStarts (highlight options raw).tokens =
      tagPieceStarts 0 (pieces (lexGuards options.guardLiterals)
        (rendered options.indentUnit.toList (reflow options raw).lines)) := by
    rw [Highlighted.tokens, tagTokenStarts_tokenize, ← toList_render_reflow]
    rfl
  rw [hlines, htokens]
  constructor
  · intro heq
    by_contra hsplit
    obtain ⟨front, line, next, more, hcat, hpoint⟩ := exists_splitLines hsplit
    obtain ⟨n, hline, htoken⟩ := exists_mem_tagLineStarts hunit hcat hpoint _
    exact htoken ((heq n).1 hline)
  · intro hkeeps n
    obtain ⟨front, last, hcat, hfront, hlast⟩ :=
      hkeeps.exists_settled fun hguard => (congrArg lexGuards hguard).trans lexGuards_true
    rw [tagPieceStarts_rendered hunit hcat hfront hlast]

/-- Around an empty element and a character of two bytes the starts are the same. -/
theorem tagLineStarts_highlight_emptyElement :
    AllBlank ReflowOptions.standard.indentUnit.toList ∧
      ∀ n, n ∈ (highlight .standard "<a>é<b/></a>").tagLineStarts ↔
        n ∈ tagTokenStarts (highlight .standard "<a>é<b/></a>").tokens := by
  have hunit : AllBlank ReflowOptions.standard.indentUnit.toList := by decide
  exact ⟨hunit, (tagLineStarts_highlight_iff hunit _).2 (by decide)⟩

end Markup

end PrettyMarkup
