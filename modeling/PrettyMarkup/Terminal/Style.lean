import PrettyMarkup.Settings.Basic

/-!
# Styled text

Spans as a terminal shows them: each stands behind a sequence that sets its colour,
and before one that takes it back.  Tag names may be bold, and comments italic.

## Implementation notes

A sequence starts with the escape character and ends with the first letter after
it; `strip` removes sequences by that rule alone.
-/

namespace PrettyMarkup

namespace Terminal

open Markup

/-- The escape character, which starts every sequence. -/
def escape : Char := '\x1B'

/-- A sequence that sets what is written to the codes given. -/
def select (codes : String) : List Char := escape :: '[' :: (codes.toList ++ ['m'])

/-- The sequence that sets a colour. -/
def foreground (color : Color) : List Char :=
  match color.number? with
  | some n => select ("38;5;" ++ toString n)
  | none => select "39"

def isBold (render : RenderSettings) (category : Category) : Bool :=
  render.boldTagNames && category == .tagName

def isItalic (render : RenderSettings) (category : Category) : Bool :=
  render.italicComments && category == .comment

/-- A span with the sequences around it. -/
def styled (render : RenderSettings) (span : Span) : List Char :=
  let bold := isBold render span.category
  let italic := isItalic render span.category
  foreground (render.palette.color span.category) ++
    (if bold then select "1" else []) ++ (if italic then select "3" else []) ++
    span.text.toList ++ select (if bold || italic then "0" else "39")

/-- Spans as a terminal shows them. -/
def ansi (render : RenderSettings) (spans : List Span) : String :=
  String.ofList (spans.flatMap (styled render))

/-- Removes sequences, the first of which may have begun before the text. -/
def stripFrom (within : Bool) : List Char → List Char
  | [] => []
  | c :: rest =>
    if within then stripFrom (!c.isAlpha) rest
    else if c == escape then stripFrom true rest
    else c :: stripFrom false rest

/-- A text without its sequences. -/
def strip (text : List Char) : List Char := stripFrom false text

@[simp] theorem strip_nil : strip [] = [] := rfl

end Terminal

end PrettyMarkup
