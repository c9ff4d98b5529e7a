import PrettyMarkup.Number.Literal

/-!
# Paths to settings

A path names a setting: a name, then names after dots and indices in brackets.
-/

namespace PrettyMarkup

namespace Settings

/-- One step into a value. -/
inductive Step where
  | key (name : String)
  /-- An index; a negative one counts from the end. -/
  | index (i : Int)
  deriving DecidableEq, Repr

/-- The way to a setting. -/
structure Path where
  root : String
  steps : List Step
  deriving DecidableEq, Repr

/-- Why a text is no path. -/
inductive PathError where
  /-- It does not start with a name. -/
  | noRoot
  /-- After a step comes neither a dot with a name nor an index in brackets. -/
  | badStep
  /-- A bracket has no digits. -/
  | noIndex
  /-- An index does not fit into 64 bits. -/
  | indexTooBig
  deriving DecidableEq, Repr

namespace PathError

def message : PathError → String
  | noRoot => "IsA"
  | badStep => "Char"
  | noIndex => "Digit"
  | indexTooBig => "Map on Result"

end PathError

namespace Path

/-- Whether a character may stand in a name of a path. -/
def isNameChar (c : Char) : Bool := c.isAlphanum || c == '_' || c == '-' || c == ' '

/-- The blanks that may stand around an index. -/
def isIndexSpace (c : Char) : Bool := c == ' ' || c == '\t'

/-- Reads an index after its opening bracket, up to the closing one. -/
def readIndex (text : List Char) : Except PathError (Step × List Char) := do
  let text := text.dropWhile isIndexSpace
  let (negative, digits) := match text with
    | '-' :: rest => (true, rest)
    | _ => (false, text)
  let after := (digits.dropWhile Char.isDigit).dropWhile isIndexSpace
  match Number.natural? 10 (digits.takeWhile Char.isDigit) with
  | none => throw .noIndex
  | some n =>
    let i : Int := if negative then -(n : Int) else n
    if !Number.fitsWord i then throw .indexTooBig
    match after with
    | ']' :: rest => return (.index i, rest)
    | _ => throw .badStep

/-- Reads one step. -/
def readStep (c : Char) (rest : List Char) : Except PathError (Step × List Char) :=
  if c == '[' then readIndex rest
  else
    let name := rest.takeWhile isNameChar
    if c == '.' && !name.isEmpty then
      .ok (.key (String.ofList name), rest.dropWhile isNameChar)
    else .error .badStep

/-- Reads the steps of a text, `fuel` at most. -/
def readSteps : Nat → List Char → Except PathError (List Step)
  | _, [] => return []
  | 0, _ => throw .badStep
  | fuel + 1, c :: rest => do
    let (step, after) ← readStep c rest
    return step :: (← readSteps fuel after)

/-- Reads a path. -/
def parse (text : String) : Except PathError Path := do
  let chars := text.toList
  let root := chars.takeWhile isNameChar
  if root.isEmpty then throw .noRoot
  let steps ← readSteps chars.length (chars.dropWhile isNameChar)
  return ⟨String.ofList root, steps⟩

end Path

namespace Step

/-- The text of a place inside a value: names with dots between them, and indices. -/
def renderPlace : List Step → String
  | [] => ""
  | step :: rest => rest.foldl (fun place step => place ++ renderNext step) (renderFirst step)
where
  renderFirst : Step → String
    | key name => name
    | index i => "[" ++ toString i ++ "]"
  renderNext : Step → String
    | key name => "." ++ name
    | index i => "[" ++ toString i ++ "]"

end Step

end Settings

end PrettyMarkup
