import PrettyMarkup.Proofs.FixedPoints
import PrettyMarkup.Proofs.RespacedTags

/-!
# Outlines do not depend on layout

The tokens of a text and of its rendered document have the same outline if literals are guarded:
the outline of a text in which no literal is split can be read off its lines
(`outlineOf_lexemes_of_unsplit`), and a rendered document has the lines that it was rendered from.
Guarded or not, texts have the same outline if they differ in which blanks stand in their runs of
blanks (`outlineOf_lexemes_respaced`).

## Implementation notes

Character data is one token up to the next tag, but one line only up to the next line feed.
Outlines are therefore put together from the end: data in front of an outline is joined to the
data it starts with (`addText`).
-/

namespace PrettyMarkup

namespace Markup

open Text

/-! ## Data in front of an outline -/

/-- An outline with data in front, joined to the data it starts with. -/
def addText (kept : List Char) (outline : List (Kind × List Char)) : List (Kind × List Char) :=
  if kept.isEmpty then outline
  else
    match outline with
    | (.text, more) :: rest => (.text, kept ++ more) :: rest
    | _ => (.text, kept) :: outline

/-- An outline does not start with data. -/
def StartsWithTag (outline : List (Kind × List Char)) : Prop :=
  ∀ entry ∈ outline.head?, entry.1 ≠ .text

@[simp] theorem addText_nil (outline : List (Kind × List Char)) :
    addText [] outline = outline := rfl

theorem addText_of_startsWithTag {outline : List (Kind × List Char)} (h : StartsWithTag outline)
    (data : List Char) :
    addText (eraseBlanks data) outline = Lexeme.outline ⟨.text, data⟩ ++ outline := by
  cases hempty : (eraseBlanks data).isEmpty with
  | true => simp [addText, Lexeme.outline, hempty]
  | false =>
      rcases outline with _ | ⟨⟨kind, chars⟩, rest⟩
      · simp [addText, Lexeme.outline, hempty]
      · have hkind : kind ≠ .text := h _ rfl
        cases kind <;> simp_all [addText, Lexeme.outline]

theorem addText_append (kept more : List Char) (outline : List (Kind × List Char)) :
    addText kept (addText more outline) = addText (kept ++ more) outline := by
  cases kept with
  | nil => rfl
  | cons c kept =>
      cases more with
      | nil => rw [addText_nil, List.append_nil]
      | cons d more =>
          rcases outline with _ | ⟨⟨kind, chars⟩, outline⟩
          · rfl
          · cases kind <;> simp [addText]

/-! ## The outline of a text -/

section

variable {guard : Bool}

theorem startsWithTag_outlineOf {source : List Char} (h : source = [] ∨ meetsTag source = true) :
    StartsWithTag (outlineOf (lexemes guard source)) := by
  rcases h with rfl | h
  · simp [StartsWithTag]
  · obtain ⟨body, rfl⟩ := exists_of_meetsTag h
    rw [lexemes_cons, lexStep, if_pos (by rfl)]
    split
    · rw [outlineOf_append, lexComment, outlineOf_cons, List.cons_append, outline_cons (by decide)]
      simp [StartsWithTag]
    · rw [outlineOf_append, outlineOf_cons, outline_cons (by decide)]
      simp [StartsWithTag]

/-- Data in front of a text is in front of its outline. -/
theorem outlineOf_data {data : List Char} (hdata : '<' ∉ data) (source : List Char) :
    outlineOf (lexemes guard (data ++ source)) =
      addText (eraseBlanks data) (outlineOf (lexemes guard source)) := by
  obtain ⟨more, rest, -, hrest, hshort, hlong⟩ := exists_lexemes_data hdata guard source
  have hstart : StartsWithTag (outlineOf (lexemes guard rest)) := startsWithTag_outlineOf hrest
  rw [hshort, hlong, outlineOf_append, outlineOf_append, outlineOf_ofChars, outlineOf_ofChars,
    ← addText_of_startsWithTag hstart, ← addText_of_startsWithTag hstart, addText_append,
    ← eraseBlanks_append]

end

/-- The outline of the lines of a text whose tags are cut as `guard` says. -/
def outlineOfLines (guard : Bool) (lines : List (List Char)) : List (Kind × List Char) :=
  lines.foldr (fun line outline =>
    if meetsTag line then outlineOf (lexemes guard line) ++ outline
    else addText (eraseBlanks line) outline) []

theorem outlineOfLines_cons (guard : Bool) (line : List Char) (lines : List (List Char)) :
    outlineOfLines guard (line :: lines) =
      if meetsTag line then outlineOf (lexemes guard line) ++ outlineOfLines guard lines
      else addText (eraseBlanks line) (outlineOfLines guard lines) := rfl

/-- The outline of a text can be read off its lines, if no literal of it is split. -/
theorem outlineOf_lexemes_of_unsplit {guard : Bool} {source : List Char}
    (h : Unsplit (lexGuards guard) (pieces (uniform true) source)) :
    outlineOf (lexemes guard source) = outlineOfLines guard (linesOf (uniform true) source) := by
  induction source using pieces_induction (uniform true) with
  | nil => rw [lexemes_nil, linesOf_nil]; rfl
  | tag source tag after hsource hcut ih =>
      rw [pieces_tag hsource hcut] at h
      have hclosed := isClosed_of_cutTag? hsource hcut
      have hsplit := h.head hclosed.meetsTag_eq
      have hlines : outlineOfLines guard (linesOf (uniform true) source) =
          outlineOf (lexemes guard (onOneLine tag)) ++ outlineOf (lexemes guard after) := by
        rw [linesOf_tag hsource hcut, outlineOfLines_cons,
          if_pos (meetsTag_onOneLine hclosed.meetsTag_eq), ← ih h.tail]
      have hwhole := hclosed.cutTag?_append hsplit after
      rw [(of_cutTag?_eq_some hsource hcut).1] at hwhole
      rw [lexemes_tag hsource hwhole, outlineOf_append, hlines,
        outlineOf_lexemes_closed hsplit hclosed, hclosed.lexemes_eq hsplit]
  | unended source hsource hcut =>
      rw [pieces_open hsource hcut] at h
      rw [linesOf_open hsource hcut, outlineOfLines_cons, if_pos (meetsTag_onOneLine hsource),
        outlineOf_lexemes_open (h.head hsource) ⟨hsource, hcut⟩]
      simp [outlineOfLines]
  | line_feed rest ih =>
      rw [pieces_break] at h
      have hlt : '<' ∉ ['\n'] := by decide
      rw [← List.singleton_append, outlineOf_data hlt, ih h.tail, List.singleton_append,
        linesOf_break]
      rfl
  | data data rest hne hdata hrest ih =>
      rw [pieces_data hne hdata hrest] at h
      have hlt : '<' ∉ data := not_mem_of_isData hdata
      have hmeets : meetsTag (trim data) = false :=
        meetsTag_eq_false fun hmem => hlt (mem_of_mem_trim hmem)
      rw [outlineOf_data hlt, ih h.tail, linesOf_data hne hdata hrest,
        layOut_data (meetsTag_eq_false hlt)]
      split
      · rename_i hempty
        rw [← eraseBlanks_trim, List.isEmpty_iff.1 hempty]
        rfl
      · rw [List.singleton_append, outlineOfLines_cons, hmeets, eraseBlanks_trim]
        rfl

/-- The outline of the lines of a text with its literals guarded. -/
def outlineLines (lines : List (List Char)) : List (Kind × List Char) := outlineOfLines true lines

theorem outlineOf_lexemes (source : List Char) :
    outlineOf (lexemes true source) = outlineLines (linesOf (uniform true) source) :=
  outlineOf_lexemes_of_unsplit (Or.inl lexGuards_true)

theorem outline_tokenize (guard : Bool) (source : String) :
    outline (tokenize guard source) = outlineOf (lexemes guard source.toList) :=
  outline_place 0 (lexemes guard source.toList)

/-! ## Other blanks -/

theorem outlineOf_blanks {guard : Bool} {blanks : List Char} (h : AllBlank blanks)
    (source : List Char) :
    outlineOf (lexemes guard (blanks ++ source)) = outlineOf (lexemes guard source) := by
  rw [outlineOf_data (not_mem_of_allBlank h (by decide)), eraseBlanks_eq_nil_iff.2 h, addText_nil]

/-- The blanks of a text do not show in its outline, but for where they stand. -/
theorem outlineOf_lexemes_respaced {guard : Bool} {a b : List Char} (h : Respaced a b) :
    outlineOf (lexemes guard a) = outlineOf (lexemes guard b) := by
  -- Runs of blanks may be split at any place, so the pieces of the texts do not agree.
  induction hlength : a.length using Nat.strong_induction_on generalizing a b with
  | h length ih =>
  subst hlength
  cases hmeets : meetsTag a with
  | false =>
      cases h with
      | nil => rfl
      | @char c s t hc h =>
          have hlt : '<' ∉ [c] := by
            intro hmem
            rw [← List.mem_singleton.1 hmem] at hmeets
            exact absurd hmeets (by simp [meetsTag])
          have hdata := @outlineOf_data guard _ hlt
          simp only [List.singleton_append] at hdata
          rw [hdata, hdata, ih s.length (by simp) h rfl]
      | @run v w s t hv hw hvb hwb h =>
          have hshort : s.length < (v ++ s).length := by
            rw [List.length_append]
            exact Nat.lt_add_of_pos_left (List.length_pos_iff.2 hv)
          rw [outlineOf_blanks hvb, outlineOf_blanks hwb, ih s.length hshort h rfl]
  | true =>
      have hmeets' : meetsTag b = true := by rw [← meetsTag_respaced h, hmeets]
      have hcut := cutTag?_respaced (lexGuards guard) hmeets h
      generalize ha : cutTag? (lexGuards guard) a = cut at hcut
      generalize hb : cutTag? (lexGuards guard) b = cut' at hcut
      cases hcut with
      | none => rw [lexemes_open hmeets ha, lexemes_open hmeets' hb, outlineOf_openLexemes h hmeets]
      | @some cut cut' hcut =>
          have hshort : cut.2.length < a.length := length_lt_of_cutTag? hmeets ha
          have htag := outlineOf_tagLexemes hcut.1 (of_cutTag?_eq_some hmeets ha).2 guard
          rw [lexemes_tag hmeets ha, lexemes_tag hmeets' hb, outlineOf_append, outlineOf_append,
            htag, ih cut.2.length hshort hcut.2 rfl]

/-- That there are blanks shows in the outline of a text, but not which ones. -/
theorem outline_tokenize_respaced (guard : Bool) (u before after v : String)
    (hbefore : before ≠ "") (hafter : after ≠ "") (hbefore' : AllBlank before.toList)
    (hafter' : AllBlank after.toList) :
    outline (tokenize guard (u ++ before ++ v)) = outline (tokenize guard (u ++ after ++ v)) := by
  have hrespaced : Respaced (u ++ before ++ v).toList (u ++ after ++ v).toList := by
    simp only [String.toList_append, List.append_assoc]
    apply Respaced.append
    · exact .refl u.toList
    · apply Respaced.run
      · simpa using hbefore
      · simpa using hafter
      · exact hbefore'
      · exact hafter'
      · exact .refl v.toList
  rw [outline_tokenize, outline_tokenize, outlineOf_lexemes_respaced hrespaced]

/-- Between `=` and a quote a blank is a blank, of one byte or of three. -/
theorem outline_tokenize_respaced_ideographic :
    "\u3000" ≠ "" ∧ "\r\n" ≠ "" ∧ AllBlank "\u3000".toList ∧ AllBlank "\r\n".toList ∧
      outline (tokenize true ("<a x=" ++ "\u3000" ++ "\"/><b>")) =
        [(.bracketOpen, "<".toList), (.tagOpenName, "a".toList), (.attributeName, "x".toList),
          (.equals, "=".toList), (.attributeName, "\"".toList), (.bracketClose, "/>".toList),
          (.bracketOpen, "<".toList), (.tagOpenName, "b".toList), (.bracketClose, ">".toList)] := by
  have hne : "\u3000" ≠ "" := by decide
  have hne' : "\r\n" ≠ "" := by decide
  have hblank : AllBlank "\u3000".toList := by decide
  have hblank' : AllBlank "\r\n".toList := by decide
  refine ⟨hne, hne', hblank, hblank', ?_⟩
  rw [outline_tokenize_respaced true _ _ "\r\n" _ hne hne' hblank hblank', outline_tokenize,
    String.toList_append, String.toList_append]
  decide +kernel

/-- Guarded, a raw text without a mark at its front and its rendered document have the same
outline. -/
theorem outline_tokenize_render {unit : String} (hunit : AllBlank unit.toList) (flat : Bool)
    (raw : String) :
    let options : ReflowOptions :=
      { indentUnit := unit, guardLiterals := true, flatDeclarations := flat }
    outline (tokenize true (String.ofList (dropMark raw.toList))) =
      outline (tokenize true (reflow options raw).render) := by
  intro options
  have hlines : linesOf (uniform true) (reflow options raw).render.toList =
      linesOf (uniform true) (dropMark raw.toList) :=
    (@linesOf_render_eq_iff options hunit raw).2 (Or.inl rfl)
  calc
    outline (tokenize true (String.ofList (dropMark raw.toList)))
      = outlineLines (linesOf (uniform true) (dropMark raw.toList)) := by
        rw [outline_tokenize, outlineOf_lexemes, String.toList_ofList]
    _ = outlineLines (linesOf (uniform true) (reflow options raw).render.toList) := by
        rw [hlines]
    _ = outline (tokenize true (reflow options raw).render) := by
        rw [outline_tokenize, outlineOf_lexemes]

/-- A comment with a tag in it stays one token behind a mark and data. -/
theorem outline_tokenize_render_comment :
    AllBlank "\t".toList ∧
      outline (tokenize true (reflow ⟨"\t", true, false⟩ "\uFEFF<a> x\n<!--b><c>-->").render) =
        [(.bracketOpen, "<".toList), (.tagOpenName, "a".toList), (.bracketClose, ">".toList),
          (.text, "x".toList), (.comment, "<!--b><c>-->".toList)] := by
  have hunit : AllBlank "\t".toList := by decide
  refine ⟨hunit, (outline_tokenize_render hunit false _).symm.trans ?_⟩
  decide +kernel

end Markup

end PrettyMarkup
