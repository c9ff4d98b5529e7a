import PrettyMarkup.Proofs.Coarsening
import PrettyMarkup.Proofs.Depths
import PrettyMarkup.Proofs.TagSlices

/-!
# Depths by tokens

The depths of a document are those of its lines, by their first and last characters.  A walk over
the tokens of the rendered document counts the same depths by kinds: a name that closes lowers the
height, and a `>` raises it by what stands behind the opening bracket of its tag.

## Implementation notes

Character data is one token up to the next tag, wherever the lines are that it stands on.  A walk
is therefore followed from text to text (`Leads`), and not from token to token: of a line at the
front of a text, the walk keeps the height and the tag, and goes on with the text behind the line.
-/

namespace PrettyMarkup

namespace Markup

open Text

/-! ## Walks -/

/-- Whether the `>` of a tag raises the height, by what stands behind its opening bracket. -/
def raisesBehind (flat : Bool) (next : Option Lexeme) : Bool :=
  next.any fun lexeme =>
    lexeme.kind != .tagCloseName && lexeme.kind != .processingInstruction &&
      !(flat && lexeme.kind == .tagOpenName && lexeme.chars.head? == some '!')

/-- Whether a tag closes, by what stands behind its opening bracket. -/
def lowersBehind (next : Option Lexeme) : Bool :=
  next.any fun lexeme => lexeme.kind == .tagCloseName

/-- How far a walk over tokens is. -/
structure Walk where
  height : Nat
  /-- Whether the tag that is open raises the height at its `>`. -/
  raises : Bool
  /-- The places of the tags so far with their heights: for each the height at its start, or for
  a tag that closes the height behind its name. -/
  tags : List (Nat × Nat)
  deriving DecidableEq, Repr

namespace Walk

/-- The walk over one token in front of others. -/
def step (flat : Bool) (walk : Walk) (token : Token) (behind : List Token) : Walk :=
  let next := behind.head?.map Token.lexeme
  match token.kind with
  | .bracketOpen =>
    let height := if lowersBehind next then walk.height - 1 else walk.height
    { walk with raises := raisesBehind flat next, tags := walk.tags ++ [(token.start, height)] }
  | .bracketClose =>
    let height :=
      if token.text.toList == ['>'] && walk.raises then walk.height + 1 else walk.height
    { walk with height := height, raises := false }
  | .tagCloseName => { walk with height := walk.height - 1 }
  | .comment => { walk with tags := walk.tags ++ [(token.start, walk.height)] }
  | _ => walk

/-- The walk over some tokens. -/
def run (flat : Bool) (walk : Walk) : List Token → Walk
  | [] => walk
  | token :: behind => run flat (walk.step flat token behind) behind

end Walk

/-- Each opening bracket has a closing one behind it. -/
def BracketsClose : List Kind → Prop
  | [] => True
  | kind :: behind => (kind = .bracketOpen → .bracketClose ∈ behind) ∧ BracketsClose behind

instance decideBracketsClose : (kinds : List Kind) → Decidable (BracketsClose kinds)
  | [] => inferInstanceAs (Decidable True)
  | kind :: behind =>
    have := decideBracketsClose behind
    inferInstanceAs
      (Decidable ((kind = .bracketOpen → .bracketClose ∈ behind) ∧ BracketsClose behind))

theorem BracketsClose.of_isSuffix {front behind : List Kind} (hbehind : behind <:+ front)
    (h : BracketsClose front) : BracketsClose behind := by
  obtain ⟨before, rfl⟩ := hbehind
  induction before with
  | nil => exact h
  | cons kind before ih => exact ih h.2

/-! ## One tag -/

/-- Whether a walk goes over tokens of a kind as if they were not there. -/
def Kind.isIdle : Kind → Bool
  | tagOpenName | attributeName | equals | attributeValue => true
  | text | processingInstruction => true
  | bracketOpen | bracketClose | tagCloseName | comment => false

/-- A walk goes over the lexemes of a list as if they were not there. -/
def Idle (lexemes : List Lexeme) : Prop := ∀ lexeme ∈ lexemes, lexeme.kind.isIdle = true

theorem idle_ofChars {kind : Kind} (hkind : kind.isIdle = true) (chars : List Char) :
    Idle (Lexeme.ofChars kind chars) := by
  cases chars with
  | nil => simp [Lexeme.ofChars, Idle]
  | cons c chars => simpa [Lexeme.ofChars, Idle] using hkind

theorem OffFrame.idle {lexemes : List Lexeme} (h : OffFrame lexemes) : Idle lexemes := by
  intro lexeme hlexeme
  have hoff := h lexeme hlexeme
  cases hkind : lexeme.kind <;> simp_all [Kind.isFrame, Kind.isIdle]

theorem idle_nameAndAttributes (guard : Bool) (body : List Char) :
    Idle (nameAndAttributes guard body) :=
  List.forall_mem_append.2
    ⟨idle_ofChars rfl _, (offFrame_gapsAndAttributes guard _).idle⟩

namespace Walk

section

variable {flat : Bool}

theorem step_of_isIdle {token : Token} (h : token.kind.isIdle = true) (walk : Walk)
    (behind : List Token) : walk.step flat token behind = walk := by
  rw [step]
  cases hkind : token.kind <;> simp_all [Kind.isIdle]

theorem run_idle {idle : List Lexeme} (h : Idle idle) (walk : Walk) (start : Nat)
    (behind : List Token) :
    run flat walk (Lexeme.place start idle ++ behind) = run flat walk behind := by
  induction idle generalizing start with
  | nil => rfl
  | cons lexeme idle ih =>
      obtain ⟨hkind, hidle⟩ := List.forall_mem_cons.1 h
      rw [Lexeme.place, List.cons_append, run, step_of_isIdle hkind, ih hidle]

/-- A tag that does not close raises the height at its `>`, or leaves it. -/
theorem run_tag {inside written : List Lexeme} {chars : List Char} (hinside : Idle inside)
    (hwritten : written = inside ++ [⟨.bracketClose, chars⟩]) (walk : Walk) (start : Nat)
    (behind : List Token) :
    run flat walk (Lexeme.place start (⟨.bracketOpen, ['<']⟩ :: written) ++ behind) =
      run flat
        ⟨if chars == ['>'] && raisesBehind flat written.head? then walk.height + 1
          else walk.height, false, walk.tags ++ [(start, walk.height)]⟩
        behind := by
  have hnext (start : Nat) : (Lexeme.place start written ++ behind).head?.map Token.lexeme =
      written.head? := by
    rw [← List.head?_map, List.map_append, map_lexeme_place, hwritten]
    cases inside <;> rfl
  have hlowers : lowersBehind written.head? = false := by
    rw [hwritten]
    cases inside with
    | nil => rfl
    | cons lexeme inside =>
        have hkind := (List.forall_mem_cons.1 hinside).1
        cases lexeme with
        | mk kind text => cases kind <;> simp_all [lowersBehind, Kind.isIdle]
  rw [Lexeme.place, List.cons_append, run, step]
  simp only [hnext, hlowers]
  rw [hwritten, Lexeme.place_append, List.append_assoc, run_idle hinside]
  simp [Lexeme.place, run, step]

end

end Walk

/-- What stands behind an opening bracket says what the first character of the body says. -/
theorem raisesBehind_nameAndAttributes (flat guard : Bool) (body chars : List Char)
    {written : List Lexeme}
    (hwritten : written = nameAndAttributes guard body ++ [⟨.bracketClose, chars⟩]) :
    raisesBehind flat written.head? = !(flat && body.head? == some '!') := by
  rw [hwritten, List.head?_append]
  cases body with
  | nil =>
      have hhead : (nameAndAttributes guard []).head? = none := by
        simp [nameAndAttributes, Lexeme.ofChars]
      rw [hhead]
      cases flat <;> rfl
  | cons c body =>
      cases hc : isBlank c with
      | true =>
          have hbang : ((c :: body).head? == some '!') = false := by
            simpa using ne_of_isBlank hc (by decide)
          have hhead : (nameAndAttributes guard (c :: body)).head? =
              some ⟨.text, c :: body.takeWhile isBlank⟩ := by
            simp [nameAndAttributes, hc, Lexeme.ofChars, gapsAndAttributes_gap hc]
          rw [hhead, hbang]
          cases flat <;> rfl
      | false =>
          have hhead : (nameAndAttributes guard (c :: body)).head? =
              some ⟨.tagOpenName, c :: body.takeWhile fun c => !isBlank c⟩ := by
            simp [nameAndAttributes, hc, Lexeme.ofChars]
          rw [hhead]
          cases flat <;> rfl

/-- A walk counts for some lexemes what a line counts for the depth, and keeps their place with the
depth of the line. -/
def Counts (flat : Bool) (lexemes : List Lexeme) (line : List Char) : Prop :=
  ∀ (height : Nat) (tags : List (Nat × Nat)) (start : Nat) (behind : List Token),
    Walk.run flat ⟨height, false, tags⟩ (Lexeme.place start lexemes ++ behind) =
      Walk.run flat ⟨depthAfter flat height line, false, tags ++ [(start, depthOn height line)]⟩
        behind

section Counts

variable {flat guard : Bool}

theorem counts_comment (rest : List Char) :
    Counts flat [⟨.comment, commentOpen ++ rest⟩] (commentOpen ++ rest) := by
  intro height tags start behind
  rw [depthAfter_of_not_closesScope (closesScope_comment rest),
    depthOn_of_not_closesScope (closesScope_comment rest), opensScope_comment]
  simp [Lexeme.place, Walk.run, Walk.step]

theorem counts_instruction (rest : List Char) :
    Counts flat (⟨.bracketOpen, ['<']⟩ :: endedBody guard ('?' :: rest))
      ('<' :: ('?' :: rest ++ ['>'])) := by
  intro height tags start behind
  have hcloses : closesScope ('<' :: ('?' :: rest ++ ['>'])) = false :=
    closesScope_cons (by decide) _
  have hopens : opensScope flat ('<' :: ('?' :: rest ++ ['>'])) = false := by simp [opensScope]
  have hform : TagForm.ofBody ('?' :: rest) = .instruction := rfl
  rw [endedBody, hform, Walk.run_tag (idle_ofChars rfl _) rfl,
    depthAfter_of_not_closesScope hcloses, depthOn_of_not_closesScope hcloses, hopens]
  simp [raisesBehind, Lexeme.ofChars, TagForm.bodyKind]

theorem counts_closingTag (name : List Char) :
    Counts flat (⟨.bracketOpen, ['<']⟩ :: endedBody guard ('/' :: name))
      ('<' :: ('/' :: name ++ ['>'])) := by
  intro height tags start behind
  have hcloses : closesScope ('<' :: ('/' :: name ++ ['>'])) = true := rfl
  have hform : TagForm.ofBody ('/' :: name) = .closing := rfl
  rw [endedBody, hform, depthAfter_of_closesScope hcloses, depthOn, if_pos hcloses]
  simp [Lexeme.ofChars, TagForm.bodyKind, Lexeme.place, Walk.run, Walk.step, lowersBehind,
    raisesBehind, Token.lexeme]

theorem counts_openingTag {body : List Char} (hstart : StartsOpeningTag body)
    (hcomment : commentOpen.isPrefixOf ('<' :: (body ++ ['>'])) = false) :
    Counts flat (⟨.bracketOpen, ['<']⟩ :: endedBody guard body) ('<' :: (body ++ ['>'])) := by
  intro height tags start behind
  have hcloses := closesScope_tag hstart.1
  have hopens := @opensScope_tag flat body hstart.1 hstart.2 hcomment
  have hform : TagForm.ofBody body = .opening := by simp [TagForm.ofBody, hstart.1, hstart.2]
  rw [endedBody, hform, depthAfter_of_not_closesScope hcloses,
    depthOn_of_not_closesScope hcloses, hopens]
  dsimp only
  split
  · rename_i hlast
    rw [Walk.run_tag (idle_nameAndAttributes guard _) rfl]
    simp [hlast]
  · rename_i hlast
    rw [Walk.run_tag (idle_nameAndAttributes guard _) rfl,
      raisesBehind_nameAndAttributes flat guard body _ rfl]
    simp [hlast]

/-- A walk counts for a tag what its line counts. -/
theorem counts_tagLexemes {tag : List Char} (h : IsClosed tag) :
    Counts flat (tagLexemes guard tag) tag := by
  obtain ⟨front, hfront, rfl⟩ := h.eq_concat
  obtain ⟨body, rfl⟩ := exists_of_meetsTag hfront
  rw [tagLexemes]
  split
  · rename_i hcomment
    obtain ⟨rest, hrest⟩ := List.isPrefixOf_iff_prefix.1 hcomment
    rw [← hrest]
    exact counts_comment rest
  · rename_i hcomment
    have hbody : ('<' :: body ++ ['>']).tail.dropLast = body := by simp
    rw [hbody, List.cons_append]
    rcases TagForm.ofBody_cases body with ⟨rest, rfl, -⟩ | ⟨name, rfl, -⟩ | ⟨hstart, -⟩
    · exact counts_instruction rest
    · exact counts_closingTag name
    · exact counts_openingTag hstart (Bool.eq_false_iff.2 hcomment)

end Counts

/-! ## From text to text -/

/-- Where a walk stands between two tags: its height, and the text ahead behind some bytes. -/
structure Spot where
  height : Nat
  start : Nat
  ahead : List Char

/-- The walk from a spot to the end of its text, with some tags in front of it. -/
def Spot.walk (flat : Bool) (spot : Spot) (tags : List (Nat × Nat)) : Walk :=
  Walk.run flat ⟨spot.height, false, tags⟩ (Lexeme.place spot.start (lexemes true spot.ahead))

/-- A walk leads from one spot to another, over some tags. -/
structure Leads (flat : Bool) (a b : Spot) (tags : List (Nat × Nat)) : Prop where
  walk_eq : ∀ before, a.walk flat before = b.walk flat (before ++ tags)
  kinds_suffix : (lexemes true b.ahead).map Lexeme.kind <:+ (lexemes true a.ahead).map Lexeme.kind

section Leads

variable {flat : Bool}

theorem Leads.trans {a b c : Spot} {tags more : List (Nat × Nat)} (hab : Leads flat a b tags)
    (hbc : Leads flat b c more) : Leads flat a c (tags ++ more) where
  walk_eq before := by rw [hab.walk_eq, hbc.walk_eq, List.append_assoc]
  kinds_suffix := hbc.kinds_suffix.trans hab.kinds_suffix

theorem Leads.refl (a : Spot) : Leads flat a a [] where
  walk_eq before := by rw [List.append_nil]
  kinds_suffix := List.suffix_rfl

theorem leads_nil (height start start' : Nat) :
    Leads flat ⟨height, start, []⟩ ⟨height, start', []⟩ [] where
  walk_eq before := by simp [Spot.walk, Lexeme.place, Walk.run]
  kinds_suffix := List.suffix_rfl

/-- A walk keeps nothing of data. -/
theorem leads_data {data : List Char} (hdata : '<' ∉ data) (height start : Nat)
    (source : List Char) :
    Leads flat ⟨height, start, data ++ source⟩ ⟨height, start + byteSize data, source⟩ [] := by
  obtain ⟨more, rest, -, -, hshort, hlong⟩ := exists_lexemes_data hdata true source
  constructor
  · intro before
    simp only [Spot.walk]
    rw [hshort, hlong, Lexeme.place_append, Lexeme.place_append,
      Walk.run_idle (idle_ofChars rfl _), Walk.run_idle (idle_ofChars rfl _), Lexeme.join_ofChars,
      Lexeme.join_ofChars, byteSize_append, Nat.add_assoc, List.append_nil]
  · rw [hshort, hlong, List.map_append, List.map_append]
    -- The data is a lexeme of its own, or part of the one behind it.
    cases more with
    | nil => exact List.suffix_append _ _
    | cons c more => simp [Lexeme.ofChars]

/-- Of a tag a walk keeps its place with its depth, and the depth behind it. -/
theorem leads_tag {tag : List Char} (h : IsClosed tag) (height start : Nat) (rest : List Char) :
    Leads flat ⟨height, start, tag ++ rest⟩
      ⟨depthAfter flat height tag, start + byteSize tag, rest⟩
      [(start, depthOn height tag)] := by
  have hmeets := meetsTag_append_of_meetsTag h.meetsTag_eq rest
  have hcut : cutTag? (lexGuards true) (tag ++ rest) = some (tag, rest) :=
    h.cutTag?_append (Or.inl lexGuards_true) rest
  have hlexemes := lexemes_tag hmeets hcut
  constructor
  · intro before
    simp only [Spot.walk]
    rw [hlexemes, Lexeme.place_append, counts_tagLexemes h, join_tagLexemes hmeets hcut]
  · rw [hlexemes, List.map_append]
    exact List.suffix_append _ _

/-- So it does of a settled line, which is a tag or data. -/
theorem leads_settled {line : List Char} (h : Settled (uniform true) line) (height start : Nat)
    (rest : List Char) :
    Leads flat ⟨height, start, line ++ rest⟩
      ⟨depthAfter flat height line, start + byteSize line, rest⟩
      (if meetsTag line then [(start, depthOn height line)] else []) := by
  cases h with
  | tag hclosed hline hsplit =>
      rw [hclosed.meetsTag_eq]
      exact leads_tag hclosed height start rest
  | data hne hdata hline =>
      have hhead : line.head? ≠ some '<' := by
        intro hhead
        exact not_mem_of_isData hdata (List.mem_of_mem_head? hhead)
      have hcloses : closesScope line = false := isPrefixOf_eq_false hhead ['/']
      rw [meetsTag_of_isData hdata, depthAfter_of_not_closesScope hcloses,
        opensScope_of_head?_ne hhead]
      exact leads_data (not_mem_of_isData hdata) height start rest

end Leads

/-! ## Lines -/

/-- The places at which lines start with a `<` behind their indents, each with the depth of the
line; the first line stands after `offset` bytes. -/
def tagLineDepths (unit : List Char) : Nat → List Line → List (Nat × Nat)
  | _, [] => []
  | offset, line :: lines =>
    (if meetsTag line.text.toList then [(offset + byteSize (line.indent unit), line.depth)]
      else []) ++
      tagLineDepths unit (offset + byteSize (line.render unit) + 1) lines

section

variable {flat : Bool} {unit : List Char}

theorem tagLineDepths_cons (offset : Nat) (line : Line) (lines : List Line) :
    tagLineDepths unit offset (line :: lines) =
      (if meetsTag line.text.toList then [(offset + byteSize (line.indent unit), line.depth)]
        else []) ++
        tagLineDepths unit (offset + byteSize (line.render unit) + 1) lines := rfl

theorem tagLineDepths_append (offset : Nat) (front lines : List Line) :
    tagLineDepths unit offset (front ++ lines) =
      tagLineDepths unit offset front ++
        tagLineDepths unit (offset + byteSize (renderedFront unit front)) lines := by
  induction front generalizing offset with
  | nil => rfl
  | cons line front ih =>
      rw [List.cons_append, tagLineDepths_cons, tagLineDepths_cons, ih,
        byteSize_renderedFront_cons, List.append_assoc]
      simp only [Nat.add_assoc]

theorem map_fst_tagLineDepths (offset : Nat) (lines : List Line) :
    (tagLineDepths unit offset lines).map Prod.fst = tagLineStarts unit offset lines := by
  induction lines generalizing offset with
  | nil => rfl
  | cons line lines ih =>
      rw [tagLineDepths_cons, tagLineStarts_cons, List.map_append, ih]
      split <;> rfl

theorem map_snd_tagLineDepths (offset : Nat) (lines : List Line) :
    (tagLineDepths unit offset lines).map Prod.snd =
      (lines.filter fun line => meetsTag line.text.toList).map Line.depth := by
  induction lines generalizing offset with
  | nil => rfl
  | cons line lines ih =>
      rw [tagLineDepths_cons, List.map_append, ih, List.filter_cons]
      split <;> rfl

variable (hunit : AllBlank unit)

include hunit

theorem leads_indent (line : Line) (height start : Nat) (source : List Char) :
    Leads flat ⟨height, start, line.indent unit ++ source⟩
      ⟨height, start + byteSize (line.indent unit), source⟩ [] :=
  leads_data (not_mem_of_allBlank (line.allBlank_indent hunit) (by decide)) height start source

omit hunit in
/-- Behind a line stand the other lines, or nothing. -/
theorem leads_break {rest : List Char} {lines : List Line}
    (hrest : rest = [] ∧ lines = [] ∨ rest = '\n' :: rendered unit lines) (height start : Nat) :
    Leads flat ⟨height, start, rest⟩ ⟨height, start + 1, rendered unit lines⟩ [] := by
  rcases hrest with ⟨rfl, rfl⟩ | rfl
  · exact leads_nil height start (start + 1)
  · have hlt : '<' ∉ ['\n'] := by decide
    exact leads_data hlt height start (rendered unit lines)

theorem leads_line {fragment : List Char} (hline : Settled (uniform true) fragment)
    (height start : Nat) (rest : List Char) :
    let line : Line := ⟨String.ofList fragment, depthOn height fragment⟩
    Leads flat ⟨height, start, line.render unit ++ rest⟩
      ⟨depthAfter flat height fragment, start + byteSize (line.render unit), rest⟩
      (if meetsTag line.text.toList then [(start + byteSize (line.indent unit), line.depth)]
        else []) := by
  intro line
  have htext : line.text.toList = fragment := String.toList_ofList
  have hindent := @leads_indent flat unit hunit line height start (fragment ++ rest)
  have hfragment :=
    @leads_settled flat _ hline height (start + byteSize (line.indent unit)) rest
  rw [Line.render_eq, htext, List.append_assoc, byteSize_append, ← Nat.add_assoc]
  exact hindent.trans hfragment

/-- A walk leads over settled lines, and counts their depths. -/
theorem leads_rendered {front : List (List Char)}
    (hfront : ∀ line ∈ front, Settled (uniform true) line) (height start : Nat)
    (lines : List Line) :
    Leads flat ⟨height, start, rendered unit (linesFrom flat height front ++ lines)⟩
      ⟨depthThrough flat height front,
        start + byteSize (renderedFront unit (linesFrom flat height front)), rendered unit lines⟩
      (tagLineDepths unit start (linesFrom flat height front)) := by
  induction front generalizing height start with
  | nil => exact .refl ⟨height, start, rendered unit lines⟩
  | cons fragment front ih =>
      obtain ⟨hfragment, hfront⟩ := List.forall_mem_cons.1 hfront
      obtain ⟨rest, hrendered, hrest⟩ :=
        exists_rendered_cons unit ⟨String.ofList fragment, depthOn height fragment⟩
          (linesFrom flat (depthAfter flat height fragment) front ++ lines)
      have hline := @leads_line flat unit hunit fragment hfragment height start rest
      have hbehind := ih hfront (depthAfter flat height fragment)
        (start + byteSize (Line.render unit ⟨String.ofList fragment, depthOn height fragment⟩) + 1)
      have hall := (hline.trans (leads_break hrest _ _)).trans hbehind
      rw [linesFrom, List.cons_append, hrendered, depthThrough_cons, byteSize_renderedFront_cons,
        tagLineDepths_cons, ← Nat.add_assoc, ← Nat.add_assoc]
      rwa [List.append_nil] at hall

end

/-! ## The last line -/

/-- A tag without end whose brackets close is a comment. -/
theorem openLexemes_eq_comment {tag : List Char}
    (h : BracketsClose ((openLexemes tag).map Lexeme.kind)) :
    commentOpen.isPrefixOf tag = true ∧ openLexemes tag = [⟨.comment, tag⟩] := by
  by_cases hcomment : commentOpen.isPrefixOf tag = true
  · exact ⟨hcomment, by rw [openLexemes, if_pos hcomment]⟩
  · rw [openLexemes, if_neg hcomment] at h
    obtain ⟨lexeme, hlexeme, hkind⟩ := List.mem_map.1 (h.1 rfl)
    exact absurd hkind (unclosed_bodyKind _ _ lexeme hlexeme)

section

variable {flat : Bool}

theorem walk_unended {line : List Char} (h : Unended (uniform true) line)
    (hbrackets : BracketsClose ((lexemes true line).map Lexeme.kind)) (height start : Nat)
    (tags : List (Nat × Nat)) :
    Spot.walk flat ⟨height, start, line⟩ tags =
      ⟨depthAfter flat height line, false, tags ++ [(start, depthOn height line)]⟩ := by
  have hlexemes : lexemes true line = openLexemes line :=
    lexemes_open h.isOpen.meetsTag_eq (lexGuards_true ▸ h.cutTag?_eq)
  rw [hlexemes] at hbrackets
  obtain ⟨hcomment, hopen⟩ := openLexemes_eq_comment hbrackets
  obtain ⟨rest, rfl⟩ := List.isPrefixOf_iff_prefix.1 hcomment
  have hcounts := @counts_comment flat rest height tags start []
  rw [List.append_nil] at hcounts
  rw [Spot.walk, hlexemes, hopen, hcounts, Walk.run]

/-- A walk over rendered lines whose brackets close counts the depths of the lines. -/
theorem walk_rendered {unit : List Char} (hunit : AllBlank unit) {front last : List (List Char)}
    (hfront : ∀ line ∈ front, Settled (uniform true) line)
    (hlast : last = [] ∨ ∃ line, last = [line] ∧ Unended (uniform true) line)
    (hbrackets : BracketsClose
      ((lexemes true (rendered unit (linesFrom flat 0 (front ++ last)))).map Lexeme.kind)) :
    Spot.walk flat ⟨0, 0, rendered unit (linesFrom flat 0 (front ++ last))⟩ [] =
      ⟨depthThrough flat 0 (front ++ last), false,
        tagLineDepths unit 0 (linesFrom flat 0 (front ++ last))⟩ := by
  have hlead := @leads_rendered flat unit hunit front hfront 0 0
    (linesFrom flat (depthThrough flat 0 front) last)
  rw [linesFrom_append] at hbrackets ⊢
  rw [depthThrough_append, tagLineDepths_append]
  rcases hlast with rfl | ⟨line, rfl, hline⟩
  · rw [hlead.walk_eq]
    simp [linesFrom, tagLineDepths, depthThrough, Spot.walk, Lexeme.place, Walk.run]
  · simp only [linesFrom, rendered_singleton, Line.render_eq, String.toList_ofList] at hlead
    have hall := hlead.trans (leads_indent hunit _ _ _ _)
    have hline' := @walk_unended flat line hline (hbrackets.of_isSuffix hall.kinds_suffix)
    rw [linesFrom, linesFrom, hall.walk_eq, hline', tagLineDepths_cons, String.toList_ofList,
      hline.isOpen.meetsTag_eq]
    simp [depthThrough, tagLineDepths]

end

/-! ## Highlighted texts -/

theorem map_kind_place (start : Nat) (lexemes : List Lexeme) :
    (Lexeme.place start lexemes).map Token.kind = lexemes.map Lexeme.kind := by
  rw [← map_lexeme_place start lexemes, List.map_map, map_lexeme_place]
  rfl

/-- If literals are guarded and the brackets close, a walk over the tokens of a highlighted text
ends at the depth that a further line would have, and its tags are the lines that start with a `<`,
at the same places and with the depths of the lines as their heights. -/
theorem walk_tokens_highlight {options : ReflowOptions} {raw : String}
    (hguard : options.guardLiterals = true) (hunit : AllBlank options.indentUnit.toList)
    (hbrackets : BracketsClose ((highlight options raw).tokens.map Token.kind)) :
    let highlighted := highlight options raw
    let lines := highlighted.document.lines
    let walk := Walk.run options.flatDeclarations ⟨0, false, []⟩ highlighted.tokens
    walk.height = highlighted.document.finalDepth ∧
      walk.tags.map Prod.fst = highlighted.tagLineStarts ∧
      walk.tags.map Prod.snd =
        (lines.filter fun line => meetsTag line.text.toList).map Line.depth := by
  intro highlighted lines walk
  obtain ⟨front, last, hlines, hfront, hlast⟩ :=
    @exists_settled (uniform true) (dropMark raw.toList) (Or.inl rfl)
  have hfragments : fragments options.guardLiterals (dropMark raw.toList) = front ++ last := by
    rw [fragments_eq_linesOf, hguard, hlines]
  have hdocument : highlighted.document =
      ⟨linesFrom options.flatDeclarations 0 (front ++ last), options.indentUnit,
        depthThrough options.flatDeclarations 0 (front ++ last)⟩ := by
    rw [← hfragments]
    rfl
  have htokens : highlighted.tokens = Lexeme.place 0 (lexemes true
      (rendered options.indentUnit.toList
        (linesFrom options.flatDeclarations 0 (front ++ last)))) := by
    have htext : highlighted.text.toList =
        rendered options.indentUnit.toList highlighted.document.lines := toList_render _
    have hlexer : highlighted.guardLiterals = true := hguard
    rw [Highlighted.tokens, tokenize, htext, hdocument, hlexer]
  rw [htokens, map_kind_place] at hbrackets
  have hwalk : walk = ⟨depthThrough options.flatDeclarations 0 (front ++ last), false,
      tagLineDepths options.indentUnit.toList 0
        (linesFrom options.flatDeclarations 0 (front ++ last))⟩ := by
    simp only [walk, htokens]
    exact walk_rendered hunit hfront hlast hbrackets
  refine ⟨?_, ?_, ?_⟩
  · rw [hwalk, hdocument]
  · rw [hwalk, Highlighted.tagLineStarts, hdocument]
    exact map_fst_tagLineDepths 0 _
  · simp only [lines]
    rw [hwalk, hdocument]
    exact map_snd_tagLineDepths 0 _

/-- A flat declaration, a value that ends in `/`, blanks in front of names and a comment without
end. -/
theorem walk_tokens_highlight_declaration :
    let options : ReflowOptions := ⟨"\t", true, true⟩
    let highlighted := highlight options "<!x><a y=\x22/\x22>t< b></ ><c/><!--<d>"
    let walk := Walk.run true ⟨0, false, []⟩ highlighted.tokens
    options.guardLiterals = true ∧ AllBlank options.indentUnit.toList ∧
      BracketsClose (highlighted.tokens.map Token.kind) ∧ walk.height = 1 ∧
      walk.tags.map Prod.fst = [0, 5, 19, 25, 31, 37] ∧
      walk.tags.map Prod.snd = [0, 0, 1, 1, 1, 1] := by
  intro options highlighted walk
  have hunit : AllBlank options.indentUnit.toList := by decide
  have hbrackets : BracketsClose (highlighted.tokens.map Token.kind) := by decide +kernel
  have hwalk := @walk_tokens_highlight options _ rfl hunit hbrackets
  refine ⟨rfl, hunit, hbrackets, hwalk.1.trans ?_, hwalk.2.1.trans ?_, hwalk.2.2.trans ?_⟩
  · decide +kernel
  · decide +kernel
  · decide +kernel

end Markup

end PrettyMarkup
