import PrettyMarkup.Log
import PrettyMarkup.Markup.Document
import PrettyMarkup.Markup.Lexeme

/-!
# Highlighted texts

A raw text is laid out and rendered, and the rendered text is cut into tokens with
the same rule for literals.
-/

namespace PrettyMarkup

namespace Markup

/-- A document with its rendered text. -/
structure Highlighted where
  document : Document
  /-- The rendered document. -/
  text : String
  guardLiterals : Bool
  deriving DecidableEq, Repr

/-- Lays a raw text out and renders it. -/
def highlight (options : ReflowOptions) (raw : String) : Highlighted :=
  let document := reflow options raw
  ⟨document, document.render, options.guardLiterals⟩

namespace Highlighted

/-- The tokens of the rendered text. -/
def tokens (highlighted : Highlighted) : List Token :=
  tokenize highlighted.guardLiterals highlighted.text

/-- The rendered text in the stretches that a display needs. -/
def spans (highlighted : Highlighted) : List Span :=
  Markup.spans highlighted.guardLiterals highlighted.text

/-- What is reported of a highlighted text: its measures and, if scopes are left open at its
end, how many. -/
def records (highlighted : Highlighted) (raw : String) : List Log.Record :=
  let document := highlighted.document
  let source := "markview_engine::markup::pipeline"
  let measures : Log.Record :=
    { level := .debug, source, message := "reflowed document"
      fields :=
        [("input_bytes", toString raw.utf8ByteSize), ("lines", toString document.lines.length),
          ("max_depth", toString document.maxDepth),
          ("final_depth", toString document.finalDepth)] }
  let unclosed : Log.Record :=
    { level := .trace, source, message := "document ends with unclosed tags"
      fields := [("open_scopes", toString document.finalDepth)] }
  measures :: if 0 < document.finalDepth then [unclosed] else []

end Highlighted

end Markup

end PrettyMarkup
