import PrettyMarkup.Markup.Lexeme

/-!
# Outlines

What is left of a token list when layout does not count: the kinds and the texts
without their blanks, and no token that was blank.
-/

namespace PrettyMarkup

namespace Markup

/-- The outline of a lexeme: nothing if it is blank. -/
def Lexeme.outline (lexeme : Lexeme) : List (Kind × List Char) :=
  let kept := Text.eraseBlanks lexeme.chars
  if kept.isEmpty then [] else [(lexeme.kind, kept)]

/-- The outline of a list of tokens. -/
def outline (tokens : List Token) : List (Kind × List Char) :=
  tokens.flatMap fun token => Lexeme.outline ⟨token.kind, token.text.toList⟩

@[simp] theorem outline_nil : outline [] = [] := rfl

@[simp] theorem outline_append (a b : List Token) : outline (a ++ b) = outline a ++ outline b := by
  simp [outline]

/-- The places of tokens do not show in their outline. -/
theorem outline_place (start : Nat) (lexemes : List Lexeme) :
    outline (Lexeme.place start lexemes) = lexemes.flatMap Lexeme.outline := by
  induction lexemes generalizing start with
  | nil => rfl
  | cons lexeme rest ih =>
      have := ih (start + Text.byteSize lexeme.chars)
      simp only [outline] at this
      simp [Lexeme.place, outline, this]

end Markup

end PrettyMarkup
