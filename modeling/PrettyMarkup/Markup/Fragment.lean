import PrettyMarkup.Markup.Literal
import PrettyMarkup.Text.Blank

/-!
# Fragments of a raw text

Every tag is a fragment, and so is every line of character data between two tags.
Fragments are trimmed, and empty ones are dropped.  A line break inside a tag or a
comment, with the blanks around it, becomes one space.

The reader goes through the text once.  A `>` ends a quoted attribute value's tag, a
comment or a CDATA section only if the literal is over, or if a `<` follows; guarded
literals ignore what follows.

## Implementation notes

The fragment being read is held last character first, so that the reader can look
at its end.
-/

namespace PrettyMarkup

namespace Markup

open Text

/-- What the reader stands in. -/
inductive Region where
  | text
  | tag
  | comment
  | cdata
  /-- A quoted value of a tag, with its quote. -/
  | quoted (quote : Char)
  deriving DecidableEq, Repr

namespace Region

/-- The region that a `<` starts, by the text from it on. -/
def ofTagStart (source : List Char) : Region :=
  if commentOpen.isPrefixOf source then comment
  else if cdataOpen.isPrefixOf source then cdata
  else tag

/-- The opener and the closer of a comment or a CDATA section. -/
def delimiters? : Region → Option (List Char × List Char)
  | comment => some (commentOpen, commentClose)
  | cdata => some (cdataOpen, cdataClose)
  | _ => none

end Region

/-- The state of the reader. -/
structure Reading where
  region : Region
  /-- The fragment so far, last character first. -/
  held : List Char
  /-- A line break was just folded, and the blanks after it are still to be dropped. -/
  folding : Bool
  /-- The finished fragments, last one first. -/
  finished : List (List Char)
  deriving DecidableEq, Repr

namespace Reading

def start : Reading := ⟨.text, [], false, []⟩

/-- Finishes the fragment and waits for text. -/
def finish (reading : Reading) : Reading where
  region := .text
  held := []
  folding := false
  finished :=
    let fragment := trim reading.held.reverse
    if fragment.isEmpty then reading.finished else fragment :: reading.finished

/-- Reads a character of a tag or literal. -/
def push (reading : Reading) (c : Char) : Reading :=
  if reading.folding && isBlank c then reading
  else { reading with held := c :: reading.held, folding := false }

/-- Reads a line break of a tag or literal: it and the blanks before it become one space. -/
def fold (reading : Reading) : Reading :=
  if reading.folding then reading
  else { reading with held := ' ' :: reading.held.dropWhile isBlank, folding := true }

/-- Whether the fragment ends with the closer of its section.  The characters of the opener do
not count: `<!-->` is still open. -/
def closesSection (reading : Reading) : Bool :=
  match reading.region.delimiters? with
  | some (opener, closer) =>
    closer.reverse.isPrefixOf reading.held &&
      opener.length + closer.length ≤ reading.held.length
  | none => false

/-- Reads the character `c` with `rest` after it. -/
def step (guard : Bool) (reading : Reading) (c : Char) (rest : List Char) : Reading :=
  match reading.region with
  | .text =>
    if c == '<' then
      { reading.finish with held := [c], region := .ofTagStart (c :: rest) }
    else if c == '\n' then reading.finish
    else { reading with held := c :: reading.held }
  | .tag =>
    if c == '>' then (reading.push c).finish
    else if isLineBreak c then reading.fold
    else if isQuote c && reading.held.head? == some '=' then
      { reading.push c with region := .quoted c }
    else reading.push c
  | .quoted quote =>
    if isLineBreak c then reading.fold
    else if c == '>' then
      if splitsLiteral guard rest then (reading.push c).finish else reading.push c
    else if c == quote then { reading.push c with region := .tag }
    else reading.push c
  | .comment | .cdata =>
    if isLineBreak c then reading.fold
    else if c == '>' then
      let pushed := reading.push c
      if pushed.closesSection || splitsLiteral guard rest then pushed.finish else pushed
    else reading.push c

/-- Reads a whole text. -/
def run (guard : Bool) : Reading → List Char → Reading
  | reading, [] => reading
  | reading, c :: rest => run guard (reading.step guard c rest) rest

@[simp] theorem run_nil (guard : Bool) (reading : Reading) : run guard reading [] = reading := rfl

theorem run_cons (guard : Bool) (reading : Reading) (c : Char) (rest : List Char) :
    run guard reading (c :: rest) = run guard (reading.step guard c rest) rest := rfl

end Reading

/-- The fragments of a raw text, in order. -/
def fragments (guard : Bool) (source : List Char) : List (List Char) :=
  (Reading.run guard .start source).finish.finished.reverse

end Markup

end PrettyMarkup
