/-!
# Readers

A reader takes characters from the front of a text, or refuses it.  A text is read
in one way or not at all, so a refusal carries no reason.
-/

namespace PrettyMarkup

namespace Toml

/-- Reads a value from the front of a text. -/
abbrev Reader (α : Type) := StateT (List Char) Option α

namespace Reader

/-- Refuses the text. -/
def refuse {α : Type} : Reader α := fun _ => none

/-- The characters that are left. -/
def remaining : Reader (List Char) := get

/-- Goes on from another place of the text. -/
def resume (rest : List Char) : Reader Unit := set rest

/-- Refuses the text unless a value was found. -/
def require {α : Type} (found : Option α) : Reader α :=
  match found with
  | some value => pure value
  | none => refuse

/-- The next character, without taking it. -/
def peek : Reader (Option Char) := do return (← remaining).head?

/-- Takes the characters that satisfy a condition, as far as they reach. -/
def takeWhile (p : Char → Bool) : Reader (List Char) := do
  let text ← remaining
  resume (text.dropWhile p)
  return text.takeWhile p

/-- Takes the given characters if the text goes on with them, and says whether it does. -/
def accept (chars : List Char) : Reader Bool := do
  let text ← remaining
  if chars.isPrefixOf text then
    resume (text.drop chars.length)
    return true
  else return false

/-- Takes the given characters. -/
def expect (chars : List Char) : Reader Unit := do
  if ← accept chars then return () else refuse

/-- Reads a whole text, to its end. -/
def runAll {α : Type} (reader : Reader α) (text : List Char) : Option α :=
  match reader text with
  | some (value, []) => some value
  | _ => none

end Reader

/-! ## Blanks and comments -/

/-- The blanks of the format within a line: spaces and tabs. -/
def isSpace (c : Char) : Bool := c == ' ' || c == '\t'

/-- Whether a character may stand in a comment or a text: no control but the tab. -/
def isPlain (c : Char) : Bool := c == '\t' || (0x20 ≤ c.toNat && c.toNat ≠ 0x7F)

/-- Takes the blanks that come next on the line. -/
def skipSpaces : Reader Unit := do
  let _ ← Reader.takeWhile isSpace

/-- Takes a line end, if one comes next: a line feed, after a carriage return or alone. -/
def acceptLineEnd : Reader Bool := do
  if ← Reader.accept ['\n'] then return true
  else Reader.accept ['\r', '\n']

/-- Takes a comment, if one comes next, up to the end of its line. -/
def skipComment : Reader Unit := do
  if ← Reader.accept ['#'] then
    let _ ← Reader.takeWhile isPlain

/-- Takes what may follow a statement on its line: blanks, a comment, and the line end. -/
def finishLine : Reader Unit := do
  skipSpaces
  skipComment
  if ← acceptLineEnd then return ()
  else if (← Reader.remaining).isEmpty then return ()
  else Reader.refuse

/-- Takes blanks, line ends and comments, at most `fuel` lines of them. -/
def skipLines : Nat → Reader Unit
  | 0 => skipSpaces
  | fuel + 1 => do
    skipSpaces
    if (← Reader.peek) == some '#' then
      skipComment
      if ← acceptLineEnd then skipLines fuel else Reader.refuse
    else if ← acceptLineEnd then skipLines fuel
    else return ()

/-- Takes all blanks, line ends and comments that come next. -/
def skipAll : Reader Unit := do
  skipLines (← Reader.remaining).length

end Toml

end PrettyMarkup
