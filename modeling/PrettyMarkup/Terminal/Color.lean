/-!
# Terminal colours

The sixteen colours of a terminal and its default colour, by name and by number.
-/

namespace PrettyMarkup

namespace Terminal

inductive Color where
  /-- The terminal's own colour. -/
  | reset
  | black
  | darkGrey
  | grey
  | red
  | darkRed
  | green
  | darkGreen
  | yellow
  | darkYellow
  | blue
  | darkBlue
  | magenta
  | darkMagenta
  | cyan
  | darkCyan
  | white
  deriving DecidableEq, Repr

namespace Color

def all : List Color :=
  [.reset, .black, .darkGrey, .grey, .red, .darkRed, .green, .darkGreen, .yellow, .darkYellow,
    .blue, .darkBlue, .magenta, .darkMagenta, .cyan, .darkCyan, .white]

theorem mem_all (color : Color) : color ∈ all := by
  cases color <;> simp [all]

/-- Colours are written in lower case with underscores. -/
def name : Color → String
  | reset => "reset"
  | black => "black"
  | darkGrey => "dark_grey"
  | grey => "grey"
  | red => "red"
  | darkRed => "dark_red"
  | green => "green"
  | darkGreen => "dark_green"
  | yellow => "yellow"
  | darkYellow => "dark_yellow"
  | blue => "blue"
  | darkBlue => "dark_blue"
  | magenta => "magenta"
  | darkMagenta => "dark_magenta"
  | cyan => "cyan"
  | darkCyan => "dark_cyan"
  | white => "white"

/-- The place of a colour in the palette of the terminal; the default colour has none. -/
def number? : Color → Option Nat
  | reset => none
  | black => some 0
  | darkRed => some 1
  | darkGreen => some 2
  | darkYellow => some 3
  | darkBlue => some 4
  | darkMagenta => some 5
  | darkCyan => some 6
  | grey => some 7
  | darkGrey => some 8
  | red => some 9
  | green => some 10
  | yellow => some 11
  | blue => some 12
  | magenta => some 13
  | cyan => some 14
  | white => some 15

end Color

/-- When output is coloured. -/
inductive ColorMode where
  /-- Only if a terminal shows it. -/
  | auto
  | always
  | never
  deriving DecidableEq, Repr

namespace ColorMode

def all : List ColorMode := [.auto, .always, .never]

theorem mem_all (mode : ColorMode) : mode ∈ all := by
  cases mode <;> simp [all]

def name : ColorMode → String
  | auto => "auto"
  | always => "always"
  | never => "never"

/-- Whether output is coloured, given whether a terminal shows it. -/
def colors (mode : ColorMode) (terminal : Bool) : Bool :=
  match mode with
  | auto => terminal
  | always => true
  | never => false

end ColorMode

end Terminal

end PrettyMarkup
