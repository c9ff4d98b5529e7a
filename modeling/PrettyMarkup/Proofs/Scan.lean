import Mathlib.Data.List.Induction
import PrettyMarkup.Markup.Fragment
import PrettyMarkup.Proofs.Respaced

/-!
# The end of a tag

What a reader has to remember of a tag to find its end: the region it stands in, and
whether the last two characters were the marks that its closer is made of.  One automaton
serves comments, CDATA sections and tags with quoted values, and one cut of a text is
defined from it.  The two scanners of the library are shown to make that cut elsewhere.

The laws are about what a cut may depend on.  A guarded cut depends on nothing behind the
tag; any other cut agrees with it up to the first `><` of a literal; and no cut depends on
which blanks stand in a run of blanks.

## Implementation notes

Which literals are guarded is a function of the region, since the lexer guards comments
always and other literals on demand.
-/

namespace PrettyMarkup

namespace Markup

open Text

theorem isQuote_of_isBlank {c : Char} (h : isBlank c = true) : isQuote c = false := by
  have hdouble : c ≠ '\x22' := ne_of_isBlank h (by decide)
  have hsingle : c ≠ '\x27' := ne_of_isBlank h (by decide)
  simp [isQuote, hdouble, hsingle]

/-! ## Where a `<` comes next -/

theorem meetsTag_append {text : List Char} (h : text ≠ []) (rest : List Char) :
    meetsTag (text ++ rest) = meetsTag text := by
  cases text with
  | nil => exact absurd rfl h
  | cons c text => rfl

theorem meetsTag_append_of_not {rest : List Char} (h : meetsTag rest = false) (text : List Char) :
    meetsTag (text ++ rest) = meetsTag text := by
  cases text with
  | nil => exact h
  | cons c text => rfl

theorem exists_of_meetsTag {text : List Char} (h : meetsTag text = true) :
    ∃ rest, text = '<' :: rest := by
  rw [meetsTag, beq_iff_eq] at h
  exact List.head?_eq_some_iff.1 h

theorem meetsTag_append_of_meetsTag {text : List Char} (h : meetsTag text = true)
    (rest : List Char) : meetsTag (text ++ rest) = true := by
  obtain ⟨text, rfl⟩ := exists_of_meetsTag h
  rfl

theorem holdsSplit_cons (c : Char) (rest : List Char) :
    holdsSplit (c :: rest) = (c == '>' && meetsTag rest || holdsSplit rest) := by
  rw [holdsSplit.eq_def]
  split <;> simp_all

theorem meetsTag_eq_false {text : List Char} (h : '<' ∉ text) : meetsTag text = false := by
  cases text with
  | nil => rfl
  | cons c text =>
      have hc : c ≠ '<' := fun hc => h (by simp [hc])
      simp [meetsTag, hc]

theorem holdsSplit_eq_false {text : List Char} (h : '<' ∉ text) : holdsSplit text = false := by
  induction text with
  | nil => rfl
  | cons c text ih =>
      have htext : '<' ∉ text := fun hmem => h (List.mem_cons_of_mem c hmem)
      rw [holdsSplit_cons, meetsTag_eq_false htext, ih htext, Bool.and_false, Bool.or_false]

/-- A literal is not split by what holds no `<`. -/
theorem holdsSplit_append_of_not_mem {rest : List Char} (h : '<' ∉ rest) (text : List Char) :
    holdsSplit (text ++ rest) = holdsSplit text := by
  induction text with
  | nil => exact holdsSplit_eq_false h
  | cons c text ih =>
      rw [List.cons_append, holdsSplit_cons, holdsSplit_cons, ih]
      cases text with
      | nil => rw [List.nil_append, meetsTag_eq_false h]; rfl
      | cons d text => rfl

theorem meetsTag_respaced {a b : List Char} (h : Respaced a b) : meetsTag a = meetsTag b := by
  rw [meetsTag, meetsTag, Bool.eq_iff_iff, beq_iff_eq, beq_iff_eq]
  exact h.head?_eq_some_iff (by decide)

/-- Blanks in front of a text make no `><`. -/
theorem holdsSplit_blanks_append {blanks : List Char} (h : AllBlank blanks) (text : List Char) :
    holdsSplit (blanks ++ text) = holdsSplit text := by
  induction blanks with
  | nil => rfl
  | cons c blanks ih =>
      obtain ⟨hc, hblanks⟩ := allBlank_cons.1 h
      have hgt : (c == '>') = false := beq_eq_false_iff_ne.2 (ne_of_isBlank hc (by decide))
      rw [List.cons_append, holdsSplit_cons, hgt, ih hblanks, Bool.false_and, Bool.false_or]

theorem holdsSplit_respaced {a b : List Char} (h : Respaced a b) :
    holdsSplit a = holdsSplit b := by
  induction h with
  | nil => rfl
  | char hc hst ih => rw [holdsSplit_cons, holdsSplit_cons, meetsTag_respaced hst, ih]
  | run hv hw hvb hwb hst ih =>
      rw [holdsSplit_blanks_append hvb, holdsSplit_blanks_append hwb, ih]

/-! ## Regions -/

/-- All literals guarded, or none. -/
def uniform (guard : Bool) : Region → Bool := fun _ => guard

@[simp] theorem uniform_apply (guard : Bool) (region : Region) : uniform guard region = guard := rfl

namespace Region

/-- The character that opens or closes something in a region where it is repeated or followed
by another: the equals sign before a quote, and the dashes and brackets of closers. -/
def mark : Region → Char
  | comment => '-'
  | cdata => ']'
  | _ => '='

/-- What has to be read before the region is entered. -/
def opener : Region → List Char
  | comment => commentOpen
  | cdata => cdataOpen
  | _ => ['<']

/-- What a section ends with. -/
def closer (region : Region) : List Char := [region.mark, region.mark, '>']

/-- Only quotes quote. -/
def Sound : Region → Prop
  | quoted quote => isQuote quote = true
  | _ => True

end Region

/-- What is remembered of a tag while its end is looked for. -/
structure Scan where
  region : Region
  /-- The last character was the region's mark. -/
  marked : Bool
  /-- The last two characters were. -/
  doubled : Bool
  deriving DecidableEq, Repr

namespace Scan

def start (region : Region) : Scan := ⟨region, false, false⟩

def next (scan : Scan) (c : Char) : Scan where
  region :=
    match scan.region with
    | .tag => if isQuote c && scan.marked then .quoted c else .tag
    | .quoted quote => if c == quote then .tag else .quoted quote
    | region => region
  marked := c == scan.region.mark
  doubled := scan.marked && c == scan.region.mark

/-- The state after a whole text. -/
def after (scan : Scan) (text : List Char) : Scan := text.foldl next scan

/-- Whether a `>` ends the tag whatever follows it. -/
def closes (scan : Scan) : Bool :=
  match scan.region with
  | .tag => true
  | .comment | .cdata => scan.doubled
  | .text | .quoted _ => false

/-- Whether the tag ends with the character `c` that has `rest` after it. -/
def ends (guards : Region → Bool) (scan : Scan) (c : Char) (rest : List Char) : Bool :=
  c == '>' && (scan.closes || splitsLiteral (guards scan.region) rest)

/-- Cuts a text behind the end of its tag, if the tag has an end. -/
def cut? (guards : Region → Bool) : Scan → List Char → Option (List Char × List Char)
  | _, [] => none
  | scan, c :: rest =>
    if scan.ends guards c rest then some ([c], rest)
    else (cut? guards (scan.next c) rest).map fun (inside, after) => (c :: inside, after)

@[simp] theorem cut?_nil (guards : Region → Bool) (scan : Scan) : cut? guards scan [] = none := rfl

theorem cut?_cons_of_ends {guards : Region → Bool} {scan : Scan} {c : Char} {rest : List Char}
    (h : scan.ends guards c rest = true) : cut? guards scan (c :: rest) = some ([c], rest) := by
  rw [cut?, if_pos h]

theorem cut?_cons_of_not_ends {guards : Region → Bool} {scan : Scan} {c : Char}
    {rest : List Char} (h : scan.ends guards c rest = false) :
    cut? guards scan (c :: rest) =
      (cut? guards (scan.next c) rest).map fun (inside, after) => (c :: inside, after) := by
  rw [cut?, if_neg (by simp [h])]

/-- A cut stops at the first character, or goes on behind it. -/
theorem cut?_cons_eq_some {guards : Region → Bool} {scan : Scan} {c : Char}
    {rest inside after : List Char} (h : cut? guards scan (c :: rest) = some (inside, after)) :
    (scan.ends guards c rest = true ∧ inside = [c] ∧ after = rest) ∨
      (scan.ends guards c rest = false ∧
        ∃ tail, inside = c :: tail ∧ cut? guards (scan.next c) rest = some (tail, after)) := by
  cases hends : scan.ends guards c rest with
  | true =>
      rw [cut?_cons_of_ends hends] at h
      simp only [Option.some.injEq, Prod.mk.injEq] at h
      exact Or.inl ⟨rfl, h.1.symm, h.2.symm⟩
  | false =>
      rw [cut?_cons_of_not_ends hends] at h
      obtain ⟨⟨tail, after'⟩, hcut, heq⟩ := Option.map_eq_some_iff.1 h
      simp only [Prod.mk.injEq] at heq
      obtain ⟨rfl, rfl⟩ := heq
      exact Or.inr ⟨rfl, tail, rfl, hcut⟩

theorem cut?_cons_eq_none {guards : Region → Bool} {scan : Scan} {c : Char} {rest : List Char} :
    cut? guards scan (c :: rest) = none ↔
      scan.ends guards c rest = false ∧ cut? guards (scan.next c) rest = none := by
  cases hends : scan.ends guards c rest with
  | true => simp [cut?_cons_of_ends hends]
  | false => simp [cut?_cons_of_not_ends hends]

/-- Guarded, the end of a tag does not depend on what follows it. -/
@[simp] theorem ends_uniform_true (scan : Scan) (c : Char) (rest : List Char) :
    scan.ends (uniform true) c rest = (c == '>' && scan.closes) := by
  simp [ends]

/-! ## What a cut gives -/

/-- A cut loses nothing, and what it cuts off ends with a `>`. -/
theorem of_cut?_eq_some {guards : Region → Bool} {scan : Scan} {text inside after : List Char}
    (h : cut? guards scan text = some (inside, after)) :
    inside ++ after = text ∧ ∃ front, inside = front ++ ['>'] := by
  induction text generalizing scan inside with
  | nil => simp at h
  | cons c rest ih =>
      rcases cut?_cons_eq_some h with ⟨hends, rfl, rfl⟩ | ⟨-, tail, rfl, hcut⟩
      · simp only [ends, Bool.and_eq_true, beq_iff_eq] at hends
        exact ⟨rfl, [], by rw [hends.1]; rfl⟩
      · obtain ⟨hcat, front, rfl⟩ := ih hcut
        exact ⟨by rw [List.cons_append, hcat], c :: front, rfl⟩

theorem ne_nil_of_cut? {guards : Region → Bool} {scan : Scan} {text inside after : List Char}
    (h : cut? guards scan text = some (inside, after)) : inside ≠ [] := by
  obtain ⟨-, front, rfl⟩ := of_cut?_eq_some h
  simp

/-- What a guarded cut cuts off is cut off whole. -/
theorem cut?_inside {scan : Scan} {text inside after : List Char}
    (h : cut? (uniform true) scan text = some (inside, after)) :
    cut? (uniform true) scan inside = some (inside, []) := by
  induction text generalizing scan inside with
  | nil => simp at h
  | cons c rest ih =>
      rcases cut?_cons_eq_some h with ⟨hends, rfl, rfl⟩ | ⟨hends, tail, rfl, hcut⟩
      · exact cut?_cons_of_ends (by simpa using hends)
      · rw [cut?_cons_of_not_ends (by simpa using hends), ih hcut]
        rfl

/-- A guarded tag has no end before its last character. -/
theorem cut?_front {scan : Scan} {front after : List Char} {c : Char}
    (h : cut? (uniform true) scan (front ++ [c]) = some (front ++ [c], after)) :
    cut? (uniform true) scan front = none := by
  induction front generalizing scan with
  | nil => rfl
  | cons d front ih =>
      rcases cut?_cons_eq_some h with ⟨-, hnil, -⟩ | ⟨hends, tail, heq, hcut⟩
      · simp at hnil
      · obtain rfl : front ++ [c] = tail := (List.cons.inj heq).2
        exact cut?_cons_eq_none.2 ⟨by simpa using hends, ih hcut⟩

/-! ## Where a cut is made -/

theorem after_concat (scan : Scan) (text : List Char) (c : Char) :
    scan.after (text ++ [c]) = (scan.after text).next c := by
  simp [after]

/-- A cut is made at the first place where the tag ends. -/
theorem exists_first_of_cut? {guards : Region → Bool} {scan : Scan}
    {text inside behind : List Char} (h : cut? guards scan text = some (inside, behind)) :
    ∃ front, inside = front ++ ['>'] ∧ (scan.after front).ends guards '>' behind = true ∧
      ∀ before c rest, front = before ++ c :: rest →
        (scan.after before).ends guards c (rest ++ '>' :: behind) = false := by
  induction text generalizing scan inside with
  | nil => simp at h
  | cons d text ih =>
      rcases cut?_cons_eq_some h with ⟨hends, rfl, rfl⟩ | ⟨hends, tail, rfl, hcut⟩
      · have hd := hends
        simp only [ends, Bool.and_eq_true, beq_iff_eq] at hd
        obtain rfl := hd.1
        exact ⟨[], rfl, hends, by simp⟩
      · obtain ⟨front, rfl, hlast, hfirst⟩ := ih hcut
        refine ⟨d :: front, rfl, hlast, ?_⟩
        intro before c rest hfront
        cases before with
        | nil =>
            obtain ⟨rfl, rfl⟩ := List.cons.inj hfront
            rwa [← (of_cut?_eq_some hcut).1, List.append_assoc, List.singleton_append] at hends
        | cons e before =>
            rw [List.cons_append, List.cons.injEq] at hfront
            obtain ⟨rfl, hfront⟩ := hfront
            exact hfirst before c rest hfront

/-- Without a cut the tag ends nowhere. -/
theorem ends_eq_false_of_cut? {guards : Region → Bool} {scan : Scan} {before rest : List Char}
    {c : Char} (h : cut? guards scan (before ++ c :: rest) = none) :
    (scan.after before).ends guards c rest = false := by
  induction before generalizing scan with
  | nil => exact (cut?_cons_eq_none.1 h).1
  | cons d before ih => exact ih (cut?_cons_eq_none.1 h).2

/-! ## Sections -/

section Section

variable {region : Region} (hregion : region = .comment ∨ region = .cdata)

include hregion

/-- Of a section it is remembered whether its text ends with the mark, once or twice. -/
theorem after_section (text : List Char) :
    ((start region).after text).region = region ∧
      (((start region).after text).marked = true ↔ [region.mark] <:+ text) ∧
      (((start region).after text).doubled = true ↔ [region.mark, region.mark] <:+ text) := by
  induction text using List.reverseRecOn with
  | nil => simp [after, start]
  | append_singleton text c ih =>
      obtain ⟨hsame, hmarked, -⟩ := ih
      have hnext : ((start region).after text).next c =
          ⟨region, c == region.mark,
            ((start region).after text).marked && c == region.mark⟩ := by
        rcases hregion with rfl | rfl <;> simp [next, hsame]
      rw [after_concat, hnext]
      refine ⟨rfl, ?_, ?_⟩
      · rw [beq_iff_eq, @eq_comm _ c]
        simp
      · rw [Bool.and_eq_true, hmarked, beq_iff_eq, @eq_comm _ c]
        exact concat_suffix_concat_iff.symm

variable {guards : Region → Bool} (hguard : guards region = true)

include hguard

/-- A guarded section ends at a `>` behind two marks. -/
theorem ends_section_iff (text : List Char) (c : Char) (rest : List Char) :
    ((start region).after text).ends guards c rest = true ↔
      c = '>' ∧ [region.mark, region.mark] <:+ text := by
  obtain ⟨hsame, -, hdoubled⟩ := after_section hregion text
  have hcloses : ((start region).after text).closes = ((start region).after text).doubled := by
    rcases hregion with rfl | rfl <;> simp [closes, hsame]
  rw [ends, hsame, hguard, splitsLiteral_guarded, Bool.or_false, hcloses, Bool.and_eq_true,
    beq_iff_eq, hdoubled]

/-- A guarded section is cut behind its first closer. -/
theorem exists_closer_of_cut? {text inside behind : List Char}
    (h : cut? guards (start region) text = some (inside, behind)) :
    ∃ front, inside = front ++ region.closer ∧
      ∀ before rest, inside = before ++ region.closer ++ rest → rest = [] := by
  obtain ⟨front, rfl, hlast, hfirst⟩ := exists_first_of_cut? h
  obtain ⟨start, rfl⟩ := ((ends_section_iff hregion hguard _ _ _).1 hlast).2
  refine ⟨start, by simp [Region.closer], ?_⟩
  intro before rest hinside
  rcases List.eq_nil_or_concat rest with hnil | ⟨rest, c, rfl⟩
  · exact hnil
  · -- A closer further to the front would have ended the section.
    rw [List.concat_eq_append, ← List.append_assoc] at hinside
    have hfront := (List.append_inj' hinside rfl).1
    have hgo := hfirst (before ++ [region.mark, region.mark]) '>' rest
      (by rw [hfront]; simp [Region.closer])
    have hends := (ends_section_iff hregion hguard (before ++ [region.mark, region.mark]) '>'
      (rest ++ '>' :: behind)).2 ⟨rfl, List.suffix_append _ _⟩
    rw [hgo] at hends
    exact absurd hends (by simp)

/-- A guarded section that is not cut holds no closer. -/
theorem not_closer_infix_of_cut? {text : List Char}
    (h : cut? guards (start region) text = none) : ¬region.closer <:+: text := by
  rintro ⟨before, rest, rfl⟩
  have hcat : before ++ region.closer ++ rest =
      before ++ [region.mark, region.mark] ++ '>' :: rest := by simp [Region.closer]
  rw [hcat] at h
  have hends := (ends_section_iff hregion hguard (before ++ [region.mark, region.mark]) '>'
    rest).2 ⟨rfl, List.suffix_append _ _⟩
  rw [ends_eq_false_of_cut? h] at hends
  exact absurd hends (by simp)

end Section

/-! ## Guarded cuts and others -/

/-- Where a guarded tag goes on, any tag goes on, unless a `<` comes next. -/
theorem ends_eq_false {guards : Region → Bool} {scan : Scan} {c : Char} {rest rest' : List Char}
    (h : scan.ends (uniform true) c rest = false)
    (hsplit : guards = uniform true ∨ (c == '>' && meetsTag rest') = false) :
    scan.ends guards c rest' = false := by
  cases hc : c == '>' with
  | false => simp [ends, hc]
  | true =>
      rcases hsplit with rfl | hsplit
      · simpa using h
      · simp_all [ends, splitsLiteral]

/-- A tag that is whole by itself is cut off whole whatever follows it, if no literal of it is
split. -/
theorem cut?_append_of_closed {guards : Region → Bool} {scan : Scan} {tag : List Char}
    (h : cut? (uniform true) scan tag = some (tag, []))
    (hsplit : guards = uniform true ∨ holdsSplit tag = false) (rest : List Char) :
    cut? guards scan (tag ++ rest) = some (tag, rest) := by
  induction tag generalizing scan with
  | nil => simp at h
  | cons c tag ih =>
      rcases cut?_cons_eq_some h with ⟨hends, heq, -⟩ | ⟨hends, tail, heq, hcut⟩
      · obtain rfl : tag = [] := (List.cons.inj heq).2
        have hany : scan.ends guards c rest = true := by
          simp only [ends_uniform_true, Bool.and_eq_true] at hends
          simp [ends, hends]
        exact cut?_cons_of_ends hany
      · obtain rfl : tag = tail := (List.cons.inj heq).2
        have hmeets := meetsTag_append (ne_nil_of_cut? hcut) rest
        simp only [holdsSplit_cons, Bool.or_eq_false_iff] at hsplit
        have hany : scan.ends guards c (tag ++ rest) = false :=
          ends_eq_false hends (by rw [hmeets]; exact hsplit.imp_right And.left)
        rw [List.cons_append, cut?_cons_of_not_ends hany,
          ih hcut (hsplit.imp_right And.right)]
        rfl

/-- A text in which a guarded tag has no end has no other end of a tag, if no literal is split. -/
theorem cut?_eq_none_of_open {guards : Region → Bool} {scan : Scan} {front : List Char}
    (h : cut? (uniform true) scan front = none)
    (hsplit : guards = uniform true ∨ holdsSplit front = false) :
    cut? guards scan front = none := by
  induction front generalizing scan with
  | nil => rfl
  | cons c front ih =>
      obtain ⟨hends, h⟩ := cut?_cons_eq_none.1 h
      simp only [holdsSplit_cons, Bool.or_eq_false_iff] at hsplit
      apply cut?_cons_eq_none.2
      constructor
      · exact ends_eq_false hends (hsplit.imp_right And.left)
      · exact ih h (hsplit.imp_right And.right)

/-- The first `><` in a text where a guarded tag has no end is where an unguarded tag ends. -/
theorem exists_cut?_of_holdsSplit {scan : Scan} {front : List Char}
    (h : cut? (uniform true) scan front = none) (hsplit : holdsSplit front = true) :
    ∃ before after, front = before ++ '<' :: after ∧ holdsSplit before = false ∧
      cut? (uniform true) scan before = none ∧
      ∀ rest, cut? (uniform false) scan (front ++ rest) = some (before, '<' :: after ++ rest) := by
  induction front generalizing scan with
  | nil => simp [holdsSplit] at hsplit
  | cons c front ih =>
      obtain ⟨hends, h⟩ := cut?_cons_eq_none.1 h
      cases hc : c == '>' && meetsTag front with
      | true =>
          rw [Bool.and_eq_true, beq_iff_eq] at hc
          obtain ⟨rfl, hfront⟩ := hc
          obtain ⟨after, rfl⟩ := exists_of_meetsTag hfront
          refine ⟨['>'], after, rfl, by simp [holdsSplit_cons, meetsTag, holdsSplit], ?_, ?_⟩
          · exact cut?_cons_eq_none.2 ⟨by simpa using hends, cut?_nil _ _⟩
          · intro rest
            exact cut?_cons_of_ends (by simp [ends, splitsLiteral, meetsTag])
      | false =>
          rw [holdsSplit_cons, hc, Bool.false_or] at hsplit
          obtain ⟨before, after, rfl, hbefore, hopen, hcut⟩ := ih h hsplit
          have hne : before ≠ [] := ne_nil_of_cut? (hcut [])
          have hmeets := meetsTag_append hne
          rw [hmeets] at hc
          refine ⟨c :: before, after, rfl, ?_, ?_, ?_⟩
          · rw [holdsSplit_cons, hc, hbefore, Bool.false_or]
          · exact cut?_cons_eq_none.2 ⟨by simpa using hends, hopen⟩
          · intro rest
            have hgo : scan.ends (uniform false) c (before ++ '<' :: after ++ rest) = false := by
              apply ends_eq_false hends
              right
              rw [List.append_assoc, hmeets, hc]
            rw [List.cons_append, cut?_cons_of_not_ends hgo, hcut rest]
            rfl

/-! ## What follows a text -/

/-- A tag that ends in a text ends there whatever follows the text: only what is behind its last
character could end it earlier, and that is in the text. -/
theorem cut?_append_of_some {guards : Region → Bool} {scan : Scan} {front inside after : List Char}
    (h : cut? guards scan front = some (inside, after)) (rest : List Char) :
    cut? guards scan (front ++ rest) = some (inside, after ++ rest) := by
  induction front generalizing scan inside with
  | nil => simp at h
  | cons c front ih =>
      rcases cut?_cons_eq_some h with ⟨hends, rfl, rfl⟩ | ⟨hends, tail, rfl, hcut⟩
      · apply cut?_cons_of_ends
        simp only [ends, splitsLiteral, Bool.and_eq_true, Bool.or_eq_true] at hends ⊢
        refine hends.imp_right (Or.imp_right (And.imp_right ?_))
        exact fun hmeets => meetsTag_append_of_meetsTag hmeets rest
      · have hne : front ≠ [] := by
          rintro rfl
          simp at hcut
        have hgo : scan.ends guards c (front ++ rest) = false := by
          rw [← hends, ends, ends, splitsLiteral, splitsLiteral, meetsTag_append hne]
        rw [List.cons_append, cut?_cons_of_not_ends hgo, ih hcut]
        rfl

/-- Over a text in which a tag has no end the reading goes on, unless a `<` follows. -/
theorem cut?_append_of_none {guards : Region → Bool} {scan : Scan} {front rest : List Char}
    (hrest : meetsTag rest = false) (h : cut? guards scan front = none) :
    cut? guards scan (front ++ rest) =
      (cut? guards (scan.after front) rest).map
        fun (inside, after) => (front ++ inside, after) := by
  induction front generalizing scan with
  | nil => simp [after]
  | cons c front ih =>
      obtain ⟨hends, h⟩ := cut?_cons_eq_none.1 h
      have hgo : scan.ends guards c (front ++ rest) = false := by
        rw [← hends, ends, ends, splitsLiteral, splitsLiteral, meetsTag_append_of_not hrest]
      rw [List.cons_append, cut?_cons_of_not_ends hgo, ih h, Option.map_map]
      rfl

/-! ## Blanks -/

theorem sound_next {scan : Scan} (h : scan.region.Sound) (c : Char) :
    (scan.next c).region.Sound := by
  obtain ⟨region, marked, doubled⟩ := scan
  cases region with
  | tag =>
      cases hc : isQuote c && marked with
      | true => simpa [next, hc, Region.Sound] using (Bool.and_eq_true_iff.1 hc).1
      | false => simp [next, hc, Region.Sound]
  | quoted quote =>
      cases hc : c == quote with
      | true => simp [next, hc, Region.Sound]
      | false => simpa [next, hc] using h
  | text => trivial
  | comment => trivial
  | cdata => trivial

theorem sound_after {scan : Scan} (h : scan.region.Sound) (text : List Char) :
    (scan.after text).region.Sound := by
  induction text generalizing scan with
  | nil => exact h
  | cons c text ih => exact ih (sound_next h c)

/-- After a blank only the region counts. -/
theorem next_of_isBlank {scan : Scan} (h : scan.region.Sound) {c : Char}
    (hc : isBlank c = true) : scan.next c = start scan.region := by
  have hmark : (c == scan.region.mark) = false := by
    rw [beq_eq_false_iff_ne]
    exact ne_of_isBlank hc (by cases scan.region <;> rfl)
  have hquote : isQuote c = false := isQuote_of_isBlank hc
  cases hregion : scan.region with
  | quoted quote =>
      rw [hregion] at h
      have hne : (c == quote) = false := by
        rw [beq_eq_false_iff_ne]
        rintro rfl
        rw [Region.Sound, hquote] at h
        simp at h
      simp [next, start, hregion, hne, hregion ▸ hmark]
  | _ => simp [next, start, hregion, hquote, hregion ▸ hmark]

theorem cut?_run {guards : Region → Bool} {scan : Scan} (h : scan.region.Sound)
    {run : List Char} (hne : run ≠ []) (hrun : AllBlank run) (rest : List Char) :
    cut? guards scan (run ++ rest) =
      (cut? guards (start scan.region) rest).map fun (inside, after) => (run ++ inside, after) := by
  induction run generalizing scan with
  | nil => exact absurd rfl hne
  | cons c run ih =>
      obtain ⟨hc, hrun⟩ := allBlank_cons.1 hrun
      have hends : scan.ends guards c (run ++ rest) = false := by
        have hgt : (c == '>') = false := beq_eq_false_iff_ne.2 (ne_of_isBlank hc (by decide))
        simp [ends, hgt]
      rw [List.cons_append, cut?_cons_of_not_ends hends, next_of_isBlank h hc]
      cases run with
      | nil => rfl
      | cons d run =>
          rw [@ih (start scan.region) h (by simp) hrun, Option.map_map]
          rfl

/-- Two cuts into respaced parts, or no cuts. -/
def CutAlike : Option (List Char × List Char) → Option (List Char × List Char) → Prop :=
  Option.Rel fun p q => Respaced p.1 q.1 ∧ Respaced p.2 q.2

theorem CutAlike.prepend {v w : List Char} (hvw : Respaced v w)
    {x y : Option (List Char × List Char)} (h : CutAlike x y) :
    CutAlike (x.map fun (inside, after) => (v ++ inside, after))
      (y.map fun (inside, after) => (w ++ inside, after)) := by
  cases h with
  | none => exact .none
  | some h => exact .some ⟨hvw.append h.1, h.2⟩

/-- Respaced texts are cut at the same place. -/
theorem cut?_respaced (guards : Region → Bool) (scan : Scan) (hs : scan.region.Sound)
    {a b : List Char} (h : Respaced a b) : CutAlike (cut? guards scan a) (cut? guards scan b) := by
  induction h generalizing scan with
  | nil => exact .none
  | @char c s t hc hst ih =>
      have hends : scan.ends guards c s = scan.ends guards c t := by
        rw [ends, ends, splitsLiteral, splitsLiteral, meetsTag_respaced hst]
      cases hgo : scan.ends guards c t with
      | true =>
          rw [cut?_cons_of_ends hgo, cut?_cons_of_ends (hends.trans hgo)]
          exact .some ⟨.refl [c], hst⟩
      | false =>
          rw [cut?_cons_of_not_ends hgo, cut?_cons_of_not_ends (hends.trans hgo)]
          exact (ih (scan.next c) (sound_next hs c)).prepend (.refl [c])
  | @run v w s t hv hw hvb hwb hst ih =>
      rw [cut?_run hs hv hvb, cut?_run hs hw hwb]
      have hvw : Respaced v w := by simpa using Respaced.run hv hw hvb hwb .nil
      exact (ih (start scan.region) hs).prepend hvw

end Scan

end Markup

end PrettyMarkup
