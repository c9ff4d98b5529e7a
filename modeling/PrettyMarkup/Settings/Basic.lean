import PrettyMarkup.Markup.Document
import PrettyMarkup.Markup.Token
import PrettyMarkup.Terminal.Color

/-!
# Settings

What can be set: how a text is laid out, and how it is shown.
-/

namespace PrettyMarkup

open Markup Terminal

/-- The colour of each display category. -/
structure Palette where
  punctuation : Color
  tagName : Color
  attributeName : Color
  attributeValue : Color
  text : Color
  comment : Color
  processingInstruction : Color
  deriving DecidableEq, Repr

namespace Palette

def standard : Palette where
  punctuation := .darkGrey
  tagName := .blue
  attributeName := .darkYellow
  attributeValue := .darkGreen
  text := .reset
  comment := .green
  processingInstruction := .magenta

/-- The colour of a category. -/
def color (palette : Palette) : Category → Color
  | .punctuation => palette.punctuation
  | .tagName => palette.tagName
  | .attributeName => palette.attributeName
  | .attributeValue => palette.attributeValue
  | .text => palette.text
  | .comment => palette.comment
  | .processingInstruction => palette.processingInstruction

end Palette

/-- How a text is shown. -/
structure RenderSettings where
  color : ColorMode
  italicComments : Bool
  boldTagNames : Bool
  palette : Palette
  deriving DecidableEq, Repr

namespace RenderSettings

def standard : RenderSettings := ⟨.auto, true, true, .standard⟩

end RenderSettings

/-- Everything that can be set. -/
structure Settings where
  reflow : ReflowOptions
  render : RenderSettings
  deriving DecidableEq, Repr

namespace Settings

/-- The settings where nothing is set. -/
def standard : Settings := ⟨.standard, .standard⟩

end Settings

end PrettyMarkup
