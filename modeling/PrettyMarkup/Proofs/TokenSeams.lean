import PrettyMarkup.Proofs.Grammar

/-!
# Texts lexed in parts

A text may be lexed in parts where a tag or a comment ends, and nowhere else: the tokens of the
whole are those of the front and, behind them, those of the rest.  The `>` of a tag is the last
character that is looked at to find the tag, and nothing of it is remembered.  Behind character
data, and in a tag that has no end, one more letter makes the last token a longer one.

## Implementation notes

Both directions are inductions along the tags of the front, on lexemes: places come in only at the
end, where the rest stands behind the bytes of the front.
-/

namespace PrettyMarkup

namespace Markup

open Text

/-! ## Texts tag by tag -/

/-- Induction along the tags of a text, and the character data in front of them. -/
@[elab_as_elim]
theorem tags_induction (guards : Region → Bool) {motive : List Char → Prop}
    (untagged : ∀ data, '<' ∉ data → motive data)
    (data : ∀ data source, '<' ∉ data → meetsTag source = true → motive source →
      motive (data ++ source))
    (tag : ∀ source tag after, meetsTag source = true →
      cutTag? guards source = some (tag, after) → motive after → motive source)
    (unended : ∀ source, meetsTag source = true → cutTag? guards source = none → motive source)
    (source : List Char) : motive source := by
  induction hlength : source.length using Nat.strong_induction_on generalizing source with
  | h n ih =>
      obtain ⟨front, rest, rfl, hfront, hrest⟩ := exists_data_append source
      rcases hrest with rfl | hmeets
      · rw [List.append_nil]
        exact untagged front hfront
      · apply data front rest hfront hmeets
        cases hcut : cutTag? guards rest with
        | none => exact unended rest hmeets hcut
        | some cut =>
            have hrest : cut.2.length < rest.length := length_lt_of_cutTag? hmeets hcut
            have hshort : cut.2.length < n := by
              rw [← hlength, List.length_append]
              omega
            exact tag rest cut.1 cut.2 hmeets hcut (ih _ hshort cut.2 rfl)

theorem lexemes_eq_nil_iff {guard : Bool} {source : List Char} :
    lexemes guard source = [] ↔ source = [] := by
  constructor
  · intro hnil
    rw [← join_lexemes guard source, hnil]
    rfl
  · rintro rfl
    exact lexemes_nil guard

theorem lexemes_untagged {data : List Char} (hdata : '<' ∉ data) (guard : Bool) :
    lexemes guard data = Lexeme.ofChars .text data := by
  have hlexemes := @lexemes_data guard data [] hdata (Or.inl rfl)
  rwa [List.append_nil, lexemes_nil, List.append_nil] at hlexemes

/-! ## Last lexemes -/

/-- The closing bracket of a tag, or a comment with a closer behind its opener. -/
def Lexeme.EndsTag (lexeme : Lexeme) : Prop :=
  lexeme.kind = .bracketClose ∨
    lexeme.kind = .comment ∧ 7 ≤ byteSize lexeme.chars ∧ commentClose <:+ lexeme.chars

/-- Nothing stands behind the last tag. -/
def EndsWithTag (lexemes : List Lexeme) : Prop := ∀ last ∈ lexemes.getLast?, last.EndsTag

section

variable {front rest : List Lexeme}

theorem EndsWithTag.append (hfront : EndsWithTag front) (hrest : EndsWithTag rest) :
    EndsWithTag (front ++ rest) := by
  intro last hlast
  rw [List.getLast?_append, Option.mem_def, Option.or_eq_some_iff] at hlast
  rcases hlast with hlast | ⟨-, hlast⟩
  · exact hrest last hlast
  · exact hfront last hlast

theorem EndsWithTag.prepend (hne : rest ≠ []) (hrest : EndsWithTag rest) (front : List Lexeme) :
    EndsWithTag (front ++ rest) := by
  intro last hlast
  rw [List.getLast?_append_of_ne_nil _ hne] at hlast
  exact hrest last hlast

theorem EndsWithTag.of_append (h : EndsWithTag (front ++ rest)) : EndsWithTag rest := by
  intro last hlast
  apply h last
  rw [List.getLast?_append, Option.mem_def.1 hlast]
  rfl

/-- A lexeme that ends no tag may not be the last one. -/
theorem not_endsWithTag (hne : rest ≠ []) (h : ∀ lexeme ∈ rest, ¬lexeme.EndsTag) :
    ¬EndsWithTag rest := by
  intro hends
  have hlast := List.getLast?_eq_some_getLast hne
  exact h _ (List.getLast_mem hne) (hends _ hlast)

end

theorem IsTag.endsWithTag {tag : List Lexeme} (h : IsTag tag) : EndsWithTag tag := by
  have hbracket : ∀ front bracket, EndsWithTag (front ++ [⟨.bracketClose, bracket⟩]) := by
    intro front bracket last hlast
    obtain rfl : _ = last := by simpa using hlast
    exact Or.inl rfl
  cases h with
  | comment h =>
      intro last hlast
      obtain rfl : _ = last := by simpa using hlast
      exact Or.inr ⟨rfl, h.seven_le, h.closes⟩
  | closing name => exact hbracket [_, _] _
  | instruction rest => exact hbracket [_, _] _
  | opening hstart hname hattributes hclose => exact hbracket (_ :: _) _

/-- An open comment may end with the characters of a closer, but then it is too short. -/
theorem IsOpenComment.not_endsTag {comment : List Char} (h : IsOpenComment comment) :
    ¬(⟨.comment, comment⟩ : Lexeme).EndsTag := by
  rintro (hkind | ⟨-, hseven, before, hclose⟩)
  · simp at hkind
  · dsimp only at hclose hseven
    have hfour : byteSize before < 4 := h.lt_four_of_eq_append before [] (by simp [hclose])
    have hthree : byteSize commentClose = 3 := by decide
    rw [← hclose, byteSize_append] at hseven
    omega

section

variable {guard : Bool} {source : List Char}

theorem isTag_tagLexemes {tag after : List Char}
    (hsource : meetsTag source = true) (h : cutTag? (lexGuards guard) source = some (tag, after)) :
    IsTag (tagLexemes guard tag) := by
  rw [tagLexemes]
  split
  · rename_i hopen
    have hprefix : tag <+: source := ⟨after, (of_cutTag?_eq_some hsource h).1⟩
    have hcomment := (List.isPrefixOf_iff_prefix.1 hopen).trans hprefix
    exact .comment (isClosedComment_of_cutTag? rfl hcomment h)
  · exact isTag_endedBody guard _

/-- The lexemes of a tag without end are no character data, and none of them ends a tag. -/
theorem of_mem_openLexemes (h : cutTag? (lexGuards guard) source = none) {lexeme : Lexeme}
    (hmem : lexeme ∈ openLexemes source) : lexeme.kind ≠ .text ∧ ¬lexeme.EndsTag := by
  rw [openLexemes] at hmem
  split at hmem
  · rename_i hopen
    obtain rfl := List.mem_singleton.1 hmem
    have hcomment := isOpenComment_of_cutTag? rfl (List.isPrefixOf_iff_prefix.1 hopen) h
    exact ⟨by simp, hcomment.not_endsTag⟩
  · have hkinds : ∀ kind, kind = .bracketOpen ∨ (∃ form : TagForm, kind = form.bodyKind) →
        kind ≠ .text ∧ kind ≠ .bracketClose ∧ kind ≠ .comment := by
      rintro kind (rfl | ⟨form, rfl⟩)
      · decide
      · cases form <;> decide
    have hkind : lexeme.kind = .bracketOpen ∨ ∃ form : TagForm, lexeme.kind = form.bodyKind := by
      rcases List.mem_cons.1 hmem with rfl | hmem
      · exact Or.inl rfl
      · rw [Lexeme.ofChars] at hmem
        split at hmem
        · simp at hmem
        · rw [List.mem_singleton.1 hmem]
          exact Or.inr ⟨_, rfl⟩
    obtain ⟨htext, hclose, hcomment⟩ := hkinds _ hkind
    exact ⟨htext, fun hends => hends.elim hclose fun hends => hcomment hends.1⟩

theorem openLexemes_ne_nil (source : List Char) : openLexemes source ≠ [] := by
  rw [openLexemes]
  split <;> simp

/-! ## Parts -/

/-- Behind the end of a tag lexing starts afresh. -/
theorem lexemes_append (h : EndsWithTag (lexemes guard source)) (rest : List Char) :
    lexemes guard (source ++ rest) = lexemes guard source ++ lexemes guard rest := by
  induction source using tags_induction (lexGuards guard) with
  | untagged data hdata =>
      cases data with
      | nil => rw [lexemes_nil, List.nil_append, List.nil_append]
      | cons c data =>
          rw [lexemes_untagged hdata] at h
          have hends := h ⟨.text, c :: data⟩ rfl
          simp [Lexeme.EndsTag] at hends
  | data data source hdata hsource ih =>
      have hlong := meetsTag_append_of_meetsTag hsource rest
      rw [lexemes_data hdata (Or.inr hsource)] at h ⊢
      rw [List.append_assoc, lexemes_data hdata (Or.inr hlong), ih h.of_append, List.append_assoc]
  | tag source tag after hsource hcut ih =>
      have hlong := meetsTag_append_of_meetsTag hsource rest
      rw [lexemes_tag hsource hcut] at h ⊢
      rw [lexemes_tag hlong (cutTag?_append hsource hcut rest), ih h.of_append, List.append_assoc]
  | unended source hsource hcut =>
      rw [lexemes_open hsource hcut] at h
      refine absurd h (not_endsWithTag (openLexemes_ne_nil source) ?_)
      exact fun lexeme hmem => (of_mem_openLexemes hcut hmem).2

/-- Only behind the end of a tag a letter is a lexeme of its own. -/
theorem endsWithTag_of_lexemes_concat
    (h : lexemes guard (source ++ ['x']) = lexemes guard source ++ [⟨.text, ['x']⟩]) :
    EndsWithTag (lexemes guard source) := by
  induction source using tags_induction (lexGuards guard) with
  | untagged data hdata =>
      cases data with
      | nil =>
          intro last hlast
          simp at hlast
      | cons c data =>
          have hlong : '<' ∉ c :: data ++ ['x'] := by
            rw [List.mem_append, not_or]
            exact ⟨hdata, by decide⟩
          rw [lexemes_untagged hlong, lexemes_untagged hdata] at h
          simp [Lexeme.ofChars] at h
  | data data source hdata hsource ih =>
      have hlong := meetsTag_append_of_meetsTag hsource ['x']
      have hne : source ≠ [] := by
        rintro rfl
        simp [meetsTag] at hsource
      rw [lexemes_data hdata (Or.inr hsource)] at h ⊢
      rw [List.append_assoc, lexemes_data hdata (Or.inr hlong), List.append_assoc,
        List.append_cancel_left_eq] at h
      exact (ih h).prepend (mt lexemes_eq_nil_iff.1 hne) _
  | tag source tag after hsource hcut ih =>
      have hlong := meetsTag_append_of_meetsTag hsource ['x']
      rw [lexemes_tag hsource hcut] at h ⊢
      rw [lexemes_tag hlong (cutTag?_append hsource hcut ['x']), List.append_assoc,
        List.append_cancel_left_eq] at h
      exact (isTag_tagLexemes hsource hcut).endsWithTag.append (ih h)
  | unended source hsource hcut =>
      have hlong := meetsTag_append_of_meetsTag hsource ['x']
      have hopen : cutTag? (lexGuards guard) (source ++ ['x']) = none :=
        cutTag?_concat_of_none (by decide) (by decide) hsource hcut
      rw [lexemes_open hlong hopen, lexemes_open hsource hcut] at h
      have hmem : (⟨.text, ['x']⟩ : Lexeme) ∈ openLexemes (source ++ ['x']) := by
        rw [h]
        exact List.mem_append_right _ (List.mem_singleton_self _)
      exact absurd rfl (of_mem_openLexemes hopen hmem).1

end

/-! ## Tokens -/

theorem lexeme_shift (n : Nat) (token : Token) : (token.shift n).lexeme = token.lexeme := rfl

theorem map_lexeme_tokenize (guard : Bool) (source : String) :
    (tokenize guard source).map Token.lexeme = lexemes guard source.toList :=
  map_lexeme_place 0 _

/-- The last token of a text ends a tag, or there is none. -/
theorem endsWithTag_lexemes_iff (guard : Bool) (source : String) :
    EndsWithTag (lexemes guard source.toList) ↔
      source = "" ∨ ∃ last ∈ (tokenize guard source).getLast?, last.lexeme.EndsTag := by
  have hempty : tokenize guard source = [] ↔ source = "" := by
    rw [← List.map_eq_nil_iff, map_lexeme_tokenize, lexemes_eq_nil_iff, String.toList_eq_nil_iff]
  rw [← map_lexeme_tokenize, EndsWithTag, List.getLast?_map, ← hempty]
  cases hlast : (tokenize guard source).getLast? with
  | none => simp [List.getLast?_eq_none_iff.1 hlast]
  | some last =>
      have hne : tokenize guard source ≠ [] := List.ne_nil_of_mem (List.mem_of_getLast? hlast)
      simp [hne]

/-- A text may be lexed in parts, each by itself, if and only if its front ends with the bracket of
a tag, with a closed comment, or at once: the tokens of the rest follow those of the front, as many
bytes further on as the front has. -/
theorem tokenize_append_iff (guard : Bool) (front : String) :
    (front = "" ∨ ∃ last ∈ (tokenize guard front).getLast?, last.lexeme.EndsTag) ↔
      ∀ rest, tokenize guard (front ++ rest) =
        tokenize guard front ++ (tokenize guard rest).map (Token.shift front.utf8ByteSize) := by
  rw [← endsWithTag_lexemes_iff]
  constructor
  · intro h rest
    have hsize : front.utf8ByteSize = byteSize front.toList := by
      rw [← utf8ByteSize_ofList, String.ofList_toList]
    calc
      tokenize guard (front ++ rest)
        = Lexeme.place 0 (lexemes guard front.toList ++ lexemes guard rest.toList) := by
          rw [tokenize, String.toList_append, lexemes_append h]
      _ = tokenize guard front ++
            Lexeme.place (byteSize front.toList) (lexemes guard rest.toList) := by
          rw [Lexeme.place_append, join_lexemes, Nat.zero_add, tokenize]
      _ = tokenize guard front ++ (tokenize guard rest).map (Token.shift front.utf8ByteSize) := by
          rw [hsize, tokenize, tokenize, ← Lexeme.place_add, Nat.add_zero]
  · intro h
    apply endsWithTag_of_lexemes_concat
    have hx : lexemes guard ['x'] = [⟨.text, ['x']⟩] := lexemes_untagged (by decide) guard
    have hlexemes := congrArg (List.map Token.lexeme) (h "x")
    rw [List.map_append, List.map_map, map_lexeme_tokenize, map_lexeme_tokenize,
      String.toList_append] at hlexemes
    have hshift : Token.lexeme ∘ Token.shift front.utf8ByteSize = Token.lexeme := by
      funext token
      exact lexeme_shift _ token
    rw [hshift, map_lexeme_tokenize] at hlexemes
    exact hlexemes.trans (by rw [← hx]; rfl)

end Markup

end PrettyMarkup
