/-!
# JSON output

A JSON value and its text over several lines, with two spaces a level.  Controls are
escaped; all other characters stand as they are.
-/

namespace PrettyMarkup

inductive Json where
  | text (s : String)
  | number (n : Nat)
  | list (items : List Json)
  | object (entries : List (String × Json))
  deriving Repr

namespace Json

/-- A control character by its number, in four digits. -/
def numberedEscape (c : Char) : List Char :=
  let digits := Nat.toDigits 16 c.toNat
  ['\\', 'u'] ++ List.replicate (4 - digits.length) '0' ++ digits

/-- A character as it stands between the quotes. -/
def escapeChar (c : Char) : List Char :=
  if c == '\x22' || c == '\\' then ['\\', c]
  else if c == '\x08' then ['\\', 'b']
  else if c == '\x0C' then ['\\', 'f']
  else if c == '\n' then ['\\', 'n']
  else if c == '\r' then ['\\', 'r']
  else if c == '\t' then ['\\', 't']
  else if c.toNat < 0x20 then numberedEscape c
  else [c]

/-- A text between quotes. -/
def writeText (s : String) : List Char :=
  ['\x22'] ++ s.toList.flatMap escapeChar ++ ['\x22']

/-- A new line at a level. -/
def newLine (level : Nat) : List Char := '\n' :: List.replicate (2 * level) ' '

mutual

/-- A value that starts on a line of the given level. -/
def write (level : Nat) : Json → List Char
  | text s => writeText s
  | number n => Nat.toDigits 10 n
  | list [] => ['[', ']']
  | list (first :: rest) =>
    ['['] ++ newLine (level + 1) ++ write (level + 1) first ++ writeItems (level + 1) rest ++
      newLine level ++ [']']
  | object [] => ['\x7b', '\x7d']
  | object ((name, first) :: rest) =>
    ['\x7b'] ++ newLine (level + 1) ++ writeText name ++ [':', ' '] ++ write (level + 1) first ++
      writeEntries (level + 1) rest ++ newLine level ++ ['\x7d']

/-- The items after the first one, each behind a comma. -/
def writeItems (level : Nat) : List Json → List Char
  | [] => []
  | item :: rest => [','] ++ newLine level ++ write level item ++ writeItems level rest

/-- The entries after the first one, each behind a comma. -/
def writeEntries (level : Nat) : List (String × Json) → List Char
  | [] => []
  | (name, value) :: rest =>
    [','] ++ newLine level ++ writeText name ++ [':', ' '] ++ write level value ++
      writeEntries level rest

end

/-- The text of a value. -/
def pretty (json : Json) : String := String.ofList (write 0 json)

end Json

end PrettyMarkup
