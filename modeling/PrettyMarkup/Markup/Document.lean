import PrettyMarkup.Markup.Fragment

/-!
# Laid out documents

A document is a list of lines, each a fragment with its depth.  A closing tag lowers
the depth before its line, never below zero; a line that opens a scope raises it
after.  `reflow` makes a document of a raw text.
-/

namespace PrettyMarkup

namespace Markup

/-- A fragment and the depth it is indented at. -/
structure Line where
  text : String
  depth : Nat
  deriving DecidableEq, Repr

/-- How a raw text is laid out. -/
structure ReflowOptions where
  /-- Written once per level in front of every line. -/
  indentUnit : String
  /-- Keeps comments, CDATA sections and quoted values whole where they hold `><`. -/
  guardLiterals : Bool
  /-- Lets every declaration, not only comments, leave the depth as it is. -/
  flatDeclarations : Bool
  deriving DecidableEq, Repr

namespace ReflowOptions

/-- Two spaces a level, literals not guarded, declarations opening a level. -/
def standard : ReflowOptions := ⟨"  ", false, false⟩

end ReflowOptions

/-- The lines of a text, and the depth that a further line would have. -/
structure Document where
  lines : List Line
  indentUnit : String
  finalDepth : Nat
  deriving DecidableEq, Repr

/-! ## Depth -/

/-- Whether a fragment is a closing tag. -/
def closesScope (fragment : List Char) : Bool := "</".toList.isPrefixOf fragment

/-- Whether the lines after a fragment stand one level deeper. -/
def opensScope (flat : Bool) (fragment : List Char) : Bool :=
  let declaration := if flat then "<!".toList else commentOpen
  "<".toList.isPrefixOf fragment && !closesScope fragment &&
    !"/>".toList.isSuffixOf fragment && !"<?".toList.isPrefixOf fragment &&
    !declaration.isPrefixOf fragment

/-- The depth of a fragment's own line, after a line at `depth`. -/
def depthOn (depth : Nat) (fragment : List Char) : Nat :=
  if closesScope fragment then depth - 1 else depth

/-- The depth after a fragment's line. -/
def depthAfter (flat : Bool) (depth : Nat) (fragment : List Char) : Nat :=
  if opensScope flat fragment then depthOn depth fragment + 1 else depthOn depth fragment

/-- No fragment closes a scope and opens one. -/
theorem opensScope_eq_false {flat : Bool} {fragment : List Char}
    (h : closesScope fragment = true) : opensScope flat fragment = false := by
  simp [opensScope, h]

/-- The lines of some fragments that follow a line after which the depth is `depth`. -/
def linesFrom (flat : Bool) (depth : Nat) : List (List Char) → List Line
  | [] => []
  | fragment :: rest =>
    ⟨String.ofList fragment, depthOn depth fragment⟩ ::
      linesFrom flat (depthAfter flat depth fragment) rest

/-- The depth after some fragments. -/
def depthThrough (flat : Bool) (depth : Nat) (fragments : List (List Char)) : Nat :=
  fragments.foldl (depthAfter flat) depth

/-! ## Reflow -/

/-- A text without one byte order mark at its start. -/
def dropMark (source : List Char) : List Char :=
  match source with
  | '\uFEFF' :: rest => rest
  | _ => source

/-- Lays a raw text out. -/
def reflow (options : ReflowOptions) (raw : String) : Document :=
  let pieces := fragments options.guardLiterals (dropMark raw.toList)
  { lines := linesFrom options.flatDeclarations 0 pieces
    indentUnit := options.indentUnit
    finalDepth := depthThrough options.flatDeclarations 0 pieces }

namespace Line

/-- A line behind its indent. -/
def render (unit : List Char) (line : Line) : List Char :=
  (List.replicate line.depth unit).flatten ++ line.text.toList

end Line

namespace Document

/-- The greatest depth of a line, or zero. -/
def maxDepth (document : Document) : Nat :=
  (document.lines.map Line.depth).foldl max 0

/-- The lines with their indents, and line feeds between them. -/
def render (document : Document) : String :=
  String.ofList
    (['\n'].intercalate (document.lines.map (Line.render document.indentUnit.toList)))

end Document

end Markup

end PrettyMarkup
