import PrettyMarkup.Markup.Node
import PrettyMarkup.Proofs.Depths
import PrettyMarkup.Proofs.FixedPoints
import PrettyMarkup.Proofs.StartTags

/-!
# Trees and their layout

A well-formed forest that is printed on one line is laid out as itself: every tag and every leaf
stands verbatim on its own line, at the depth of the elements around it, and the depth is zero
again at the end.

Two arguments are kept apart.  The reader cuts a printed node into its lines, since each form of
tag is a line whatever stands behind it (`IsLine`).  The depth of these lines is that of the tree,
since what stands between the two tags of an element leaves the depth as it was (`Balanced`).
-/

namespace PrettyMarkup

namespace Markup

open Text

/-! ## Lines that stand by themselves -/

/-- A text that is the first line of every text it starts. -/
def IsLine (guards : Region → Bool) (line : List Char) : Prop :=
  ∀ rest, linesOf guards (line ++ rest) = line :: linesOf guards rest

section IsLine

variable {guard : Bool} {body : List Char}

/-- A tag without line breaks that ends at its bracket is a line. -/
theorem IsPassed.isLine (h : IsPassed guard body) (hhead : body.head? ≠ some '!')
    (hbreak : body.any isLineBreak = false) :
    IsLine (uniform guard) ('<' :: (body ++ ['>'])) := by
  intro rest
  have hsource : '<' :: (body ++ ['>']) ++ rest = '<' :: (body ++ '>' :: rest) := by simp
  have hcomment : commentOpen.isPrefixOf ('<' :: (body ++ '>' :: rest)) = false := by
    rw [isPrefixOf_commentOpen]
    exact (isPrefixOf_bodyOpen hhead rest).1
  have hcut := h.cutTag?_eq hhead rest
  rw [cutTag?_lexGuards hcomment] at hcut
  have hline : onOneLine ('<' :: body ++ ['>']) = '<' :: body ++ ['>'] := by
    rw [onOneLine_concat (by decide), foldRuns_eq_self]
    simp [hbreak, show isLineBreak '<' = false by decide, show isLineBreak '>' = false by decide]
  rw [List.cons_append] at hline
  rw [hsource, linesOf_tag rfl hcut, hline]

/-- The closer of a comment does not begin in a body that does not hold it: behind a first dash or
two there are more dashes, and no bracket. -/
theorem isPrefixOf_commentClose_append (h : ¬ commentClose <:+: body) (hne : body ≠ [])
    (rest : List Char) : commentClose.isPrefixOf (body ++ commentClose ++ rest) = false := by
  rw [Bool.eq_false_iff, Ne, List.isPrefixOf_iff_prefix]
  intro hclose
  match body, hne with
  | [c], _ => simp [commentClose] at hclose
  | [c, d], _ => simp [commentClose] at hclose
  | c :: d :: e :: body, _ =>
    apply h
    have hshort : commentClose <+: c :: d :: e :: body := by
      simpa [commentClose] using hclose
    exact hshort.isInfix

/-- A comment ends at its first closer. -/
theorem splitComment_body (h : ¬ commentClose <:+: body) (rest : List Char) :
    splitComment (body ++ commentClose ++ rest) = (body ++ commentClose, rest) := by
  induction body with
  | nil => rfl
  | cons c body ih =>
      have htail : ¬ commentClose <:+: body := fun hclose =>
        h (hclose.trans (List.suffix_cons c body).isInfix)
      have hgo := isPrefixOf_commentClose_append h (by simp) rest
      rw [List.cons_append, List.cons_append] at hgo ⊢
      rw [Scan.splitComment_cons hgo, ih htail]

theorem isClosed_comment (h : ¬ commentClose <:+: body) :
    IsClosed (commentOpen ++ (body ++ commentClose)) := by
  have hregion : Region.ofTagStart
      (Region.comment.opener ++ (body ++ commentClose ++ [' '])) = .comment :=
    ofTagStart_commentOpen _
  -- The character behind the comment tells a comment that ends from one that does not.
  have hsplit := Scan.splitComment_eq true (body ++ commentClose ++ [' '])
  rw [splitComment_body h, lexGuards_true] at hsplit
  cases hcut : Scan.cut? (uniform true) (.start .comment) (body ++ commentClose ++ [' ']) with
  | none =>
      rw [hcut] at hsplit
      simp [Scan.resume] at hsplit
  | some cut =>
      rw [hcut] at hsplit
      obtain rfl : (body ++ commentClose, [' ']) = cut := hsplit
      exact isClosed_of_cutTag? rfl ((cutTag?_opener_eq_some_iff hregion).2 hcut)

/-- A whole comment is a line. -/
theorem isLine_comment (h : ¬ commentClose <:+: body) (hbreak : body.any isLineBreak = false)
    (hsplit : guard = false → holdsSplit body = false) :
    IsLine (uniform guard) (commentOpen ++ (body ++ commentClose)) := by
  intro rest
  have hguards : uniform guard = uniform true ∨
      holdsSplit (commentOpen ++ (body ++ commentClose)) = false := by
    cases guard with
    | true => exact Or.inl rfl
    | false =>
        right
        calc
          holdsSplit (commentOpen ++ (body ++ commentClose))
            = holdsSplit (body ++ commentClose) := holdsSplit_opener_append .comment _
          _ = holdsSplit body := holdsSplit_append_of_not_mem (by decide) body
          _ = false := hsplit rfl
  have hline : onOneLine (commentOpen ++ (body ++ commentClose)) =
      commentOpen ++ (body ++ commentClose) := by
    rw [(isClosed_comment h).onOneLine_eq, foldRuns_eq_self]
    rw [List.any_append, List.any_append, hbreak]
    decide
  rw [linesOf_tag rfl ((isClosed_comment h).cutTag?_append hguards rest), hline]

end IsLine

/-! ## Printed tags -/

theorem isLineBreak_name {name : List Char} (h : IsName name) : name.any isLineBreak = false := by
  rw [List.any_eq_false]
  intro c hc
  simp [isLineBreak_eq_false (ne_of_isNameChar (h.2 c hc)).1]

namespace Node

section PrintHead

variable {guard : Bool} {name : List Char} {attributes : List Attribute}

/-- The start tag that a name with attributes stands in. -/
def headTag (name : List Char) (attributes : List Attribute) : StartTag :=
  ⟨name, attributes.map fun a => ([' '], a), [], false⟩

theorem inside_headTag (name : List Char) (attributes : List Attribute) :
    (headTag name attributes).inside = printHead name attributes := by
  simp [headTag, StartTag.inside, printParts, printHead, List.flatMap_map]

variable (hname : IsPlainName name) (hattributes : ∀ a ∈ attributes, IsPlainAttribute guard a)

include hname hattributes

theorem wellFormed_headTag : (headTag name attributes).WellFormed true := by
  have hgap : IsGap [' '] := by decide
  obtain ⟨hname, hbang, hquestion⟩ := hname
  refine ⟨hname, ?_, ?_, ?_, Or.inl rfl⟩
  · exact fun hhead => hbang (List.mem_of_mem_head? hhead)
  · exact fun hhead => hquestion (List.mem_of_mem_head? hhead)
  · intro part hpart
    obtain ⟨a, ha, rfl⟩ := List.mem_map.1 hpart
    exact ⟨hgap, (hattributes a ha).2.1, by simp⟩

theorem isPassed_printHead : IsPassed guard (printHead name attributes) := by
  rw [← inside_headTag]
  apply (wellFormed_headTag hname hattributes).isPassed_inside
  intro hguard part hpart
  obtain ⟨a, ha, rfl⟩ := List.mem_map.1 hpart
  exact (hattributes a ha).2.2.2 hguard

theorem getLast?_printHead : (printHead name attributes).getLast? ≠ some '/' := by
  rw [← inside_headTag]
  exact (wellFormed_headTag hname hattributes).getLast?_inside

theorem exists_printHead_eq_cons :
    ∃ c rest, printHead name attributes = c :: rest ∧ c ≠ '!' ∧ c ≠ '?' ∧ c ≠ '/' := by
  obtain ⟨c, rest, hcat, hne⟩ := (wellFormed_headTag hname hattributes).exists_name
  obtain rfl : name = c :: rest := hcat
  exact ⟨c, _, rfl, hne⟩

theorem isLineBreak_printHead : (printHead name attributes).any isLineBreak = false := by
  rw [printHead, List.any_append, isLineBreak_name hname.1, Bool.false_or, List.any_flatMap,
    List.any_eq_false]
  intro a ha
  obtain ⟨hattribute, ⟨-, hquote, -⟩, hvalue, -⟩ := hattributes a ha
  simp [Attribute.print, Attribute.printValue, isLineBreak_name hattribute.1, hvalue,
    isLineBreak_eq_false (isBlank_of_isQuote hquote), show isLineBreak ' ' = false by decide,
    show isLineBreak '=' = false by decide]

/-! ## Tags of a tree -/

theorem isLine_startTag : IsLine (uniform guard) (startTag name attributes) := by
  obtain ⟨c, rest, hcat, hbang, -⟩ := exists_printHead_eq_cons hname hattributes
  apply (isPassed_printHead hname hattributes).isLine
  · simp [hcat, hbang]
  · exact isLineBreak_printHead hname hattributes

theorem isLine_emptyElement : IsLine (uniform guard) (emptyElement name attributes).leaf := by
  obtain ⟨c, rest, hcat, hbang, -⟩ := exists_printHead_eq_cons hname hattributes
  have hslash : IsPassed guard ['/'] := isPassed_singleton (by decide) (by decide)
  have hline : (emptyElement name attributes).leaf =
      '<' :: (printHead name attributes ++ ['/'] ++ ['>']) := by
    simp [leaf]
  rw [hline]
  apply ((isPassed_printHead hname hattributes).append hslash).isLine
  · simp [hcat, hbang]
  · rw [List.any_append, isLineBreak_printHead hname hattributes]
    decide

theorem isLine_instruction : IsLine (uniform guard) (instruction name attributes).leaf := by
  have hquestion : IsPassed guard ['?'] := isPassed_singleton (by decide) (by decide)
  have hline : (instruction name attributes).leaf =
      '<' :: (['?'] ++ printHead name attributes ++ ['?'] ++ ['>']) := by
    simp [leaf]
  rw [hline]
  apply ((hquestion.append (isPassed_printHead hname hattributes)).append hquestion).isLine
  · simp
  · rw [List.any_append, List.any_append, isLineBreak_printHead hname hattributes]
    decide

theorem opensScope_startTag (flat : Bool) : opensScope flat (startTag name attributes) = true := by
  have hlast := getLast?_printHead hname hattributes
  obtain ⟨c, rest, hcat, hbang, hquestion, hslash⟩ := exists_printHead_eq_cons hname hattributes
  rw [startTag, opensScope_element]
  · simpa using hlast
  · simpa [hcat] using hslash
  · simpa [hcat] using hquestion
  · simpa [hcat] using hbang

theorem closesScope_emptyElement : closesScope (emptyElement name attributes).leaf = false := by
  obtain ⟨c, rest, hcat, -, -, hslash⟩ := exists_printHead_eq_cons hname hattributes
  rw [leaf, hcat]
  exact closesScope_cons hslash _

theorem opensScope_emptyElement (flat : Bool) :
    opensScope flat (emptyElement name attributes).leaf = false := by
  obtain ⟨c, rest, hcat, hbang, hquestion, hslash⟩ := exists_printHead_eq_cons hname hattributes
  have hline : (emptyElement name attributes).leaf =
      '<' :: (printHead name attributes ++ ['/'] ++ ['>']) := by
    simp [leaf]
  rw [hline, opensScope_element]
  · simp
  · simpa [hcat] using hslash
  · simpa [hcat] using hquestion
  · simpa [hcat] using hbang

end PrintHead

/-! ## Nodes -/

section

variable {guard : Bool}

theorem isLine_endTag {name : List Char} (hname : IsPlainName name) :
    IsLine (uniform guard) (endTag name) := by
  have hslash : IsPassed guard ['/'] := isPassed_singleton (by decide) (by decide)
  have hline : endTag name = '<' :: (['/'] ++ name ++ ['>']) := by simp [endTag]
  rw [hline]
  apply (hslash.append hname.1.isPassed).isLine
  · simp
  · rw [List.any_append, isLineBreak_name hname.1]
    decide

/-- A node that is no text is printed as a tag. -/
theorem head?_print {node : Node} (h : node.isText = false) : node.print.head? = some '<' := by
  cases node with
  | text chars => simp [isText] at h
  | _ => simp [print, leaf, startTag, commentOpen]

mutual

/-- A printed node is cut into the lines of its tree, whatever stands behind it, but that a text
ends at a tag, at a line feed or with the whole. -/
theorem linesOf_print (depth : Nat) : ∀ (node : Node), node.WellFormed guard → ∀ (rest : List Char),
    (node.isText = true → ∀ c ∈ rest.head?, isData c = false) →
    linesOf (uniform guard) (node.print ++ rest) =
      (node.lines depth).map (fun line => line.text.toList) ++ linesOf (uniform guard) rest
  | element name attributes children, h, rest, _ => by
    obtain ⟨hname, hattributes, hchildren⟩ := h
    have hinside := linesOf_printAll (depth + 1) children hchildren (endTag name ++ rest)
      (by simp [endTag, isData])
    rw [print, lines, List.append_assoc, List.append_assoc,
      isLine_startTag hname hattributes, hinside, isLine_endTag hname]
    simp
  | emptyElement name attributes, h, rest, _ => by
    have hline := @isLine_emptyElement guard name attributes h.1 h.2 rest
    simpa [print, lines] using hline
  | instruction name attributes, h, rest, _ => by
    have hline := @isLine_instruction guard name attributes h.1 h.2 rest
    simpa [print, lines] using hline
  | comment body, h, rest, _ => by
    obtain ⟨⟨hbreak, hsplit⟩, hclose⟩ := h
    have hline := isLine_comment hclose hbreak hsplit rest
    simpa [print, lines, leaf] using hline
  | text chars, h, rest, hrest => by
    obtain ⟨hne, htrim, hlt, hbreak⟩ := h
    have hdata : ∀ c ∈ chars, isData c = true := by
      intro c hc
      have hclt : c ≠ '<' := fun heq => hlt (heq ▸ hc)
      have hcbreak : c ≠ '\n' := fun heq => hbreak (heq ▸ hc)
      simp [isData, hclt, hcbreak]
    have hline := @linesOf_data (uniform guard) chars rest hne hdata (hrest rfl)
    rw [layOut_data (meetsTag_of_isData hdata), htrim, if_neg (by simpa using hne)] at hline
    simpa [print, lines, leaf] using hline

/-- So are nodes one after another, since no text follows a text. -/
theorem linesOf_printAll (depth : Nat) : ∀ (nodes : List Node), AllWellFormed guard nodes →
    ∀ (rest : List Char), (∀ c ∈ rest.head?, isData c = false) →
    linesOf (uniform guard) (printAll nodes ++ rest) =
      (linesAll depth nodes).map (fun line => line.text.toList) ++ linesOf (uniform guard) rest
  | [], _, rest, _ => by
    rw [printAll, linesAll]
    rfl
  | node :: nodes, h, rest, hrest => by
    obtain ⟨hnode, htexts, hnodes⟩ := h
    have hbehind : node.isText = true → ∀ c ∈ (printAll nodes ++ rest).head?, isData c = false := by
      intro htext
      cases nodes with
      | nil => exact hrest
      | cons next nodes =>
          have hnext : next.isText = false := by simpa [htext] using htexts
          simp [printAll, head?_print hnext, isData]
    rw [printAll, linesAll, List.append_assoc, linesOf_print depth node hnode _ hbehind,
      linesOf_printAll depth nodes hnodes rest hrest, List.map_append, List.append_assoc]

end

end

section

variable {guard : Bool} (flat : Bool)

mutual

/-- The lines of a node leave the depth as it was. -/
theorem balanced_lines (depth : Nat) : ∀ (node : Node), node.WellFormed guard →
    Balanced flat depth (node.lines depth)
  | element name attributes children, h => by
    obtain ⟨hname, hattributes, hchildren⟩ := h
    rw [lines]
    exact (balanced_linesAll (depth + 1) children hchildren).enclose
      (opensScope_startTag hname hattributes flat) rfl
  | emptyElement _ _, h =>
    balanced_singleton (closesScope_emptyElement h.1 h.2) (opensScope_emptyElement h.1 h.2 flat)
  | instruction _ _, _ => balanced_singleton rfl (by simp [opensScope, leaf])
  | comment _, _ => balanced_singleton rfl (opensScope_comment flat _)
  | text chars, ⟨_, _, hlt, _⟩ => by
    have hhead : chars.head? ≠ some '<' := fun hhead => hlt (List.mem_of_mem_head? hhead)
    exact balanced_singleton (isPrefixOf_eq_false hhead _) (opensScope_of_head?_ne hhead flat)

theorem balanced_linesAll (depth : Nat) : ∀ (nodes : List Node), AllWellFormed guard nodes →
    Balanced flat depth (linesAll depth nodes)
  | [], _ => balanced_nil
  | node :: nodes, h => by
    obtain ⟨hnode, -, hnodes⟩ := h
    rw [linesAll]
    exact (balanced_lines depth node hnode).append (balanced_linesAll depth nodes hnodes)

end

end

end Node

/-- A printed forest is laid out as the forest, from depth zero to depth zero. -/
theorem reflow_printAll {options : ReflowOptions} {nodes : List Node}
    (h : Node.AllWellFormed options.guardLiterals nodes)
    (hmark : (Node.printAll nodes).head? ≠ some '\uFEFF') :
    reflow options (String.ofList (Node.printAll nodes)) =
      { lines := Node.linesAll 0 nodes
        indentUnit := options.indentUnit
        finalDepth := 0 } := by
  have hlines := Node.linesOf_printAll 0 nodes h [] (by simp)
  rw [List.append_nil, linesOf_nil, List.append_nil] at hlines
  have hdepth := Node.balanced_linesAll options.flatDeclarations 0 nodes h
  rw [reflow, String.toList_ofList, dropMark_of_head? hmark, fragments_eq_linesOf, hlines]
  simp only [hdepth.linesFrom_eq, hdepth.depthThrough_eq]

/-- Values, a comment and a text hold brackets, and none of them ends a tag. -/
theorem reflow_printAll_brackets :
    ∃ nodes : List Node, Node.AllWellFormed false nodes ∧
      (Node.printAll nodes).head? ≠ some '\uFEFF' ∧
      String.ofList (Node.printAll nodes) =
        "<?v e=\x271\x27?><a b=\x22 />\x27=\x22><!--> -- /-->t > u<c d=\x27\x22\x27/></a>z" ∧
      reflow .standard (String.ofList (Node.printAll nodes)) =
        { lines := [⟨"<?v e=\x271\x27?>", 0⟩, ⟨"<a b=\x22 />\x27=\x22>", 0⟩,
            ⟨"<!--> -- /-->", 1⟩, ⟨"t > u", 1⟩, ⟨"<c d=\x27\x22\x27/>", 1⟩, ⟨"</a>", 0⟩, ⟨"z", 0⟩]
          indentUnit := "  "
          finalDepth := 0 } := by
  have h : Node.AllWellFormed false
      [.instruction ['v'] [⟨['e'], ['1'], '\x27'⟩],
        .element ['a'] [⟨['b'], " />\x27=".toList, '\x22'⟩]
          [.comment "> -- /".toList, .text "t > u".toList,
            .emptyElement ['c'] [⟨['d'], ['\x22'], '\x27'⟩]],
        .text ['z']] := by
    decide +kernel
  refine ⟨_, h, by decide +kernel, by decide +kernel, ?_⟩
  refine (@reflow_printAll .standard _ h (by decide +kernel)).trans ?_
  decide +kernel

end Markup

end PrettyMarkup
