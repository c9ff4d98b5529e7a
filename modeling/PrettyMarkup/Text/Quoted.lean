import PrettyMarkup.Text.Shapeless

/-!
# Quoted texts

A text in double quotes on one line, as diagnostics show it.  Quotes, backslashes
and the common controls have short escapes; every other character without a shape
is written by its number.
-/

namespace PrettyMarkup

namespace Text

/-- A code number in lower-case hexadecimal digits. -/
def hexDigits (n : Nat) : List Char := Nat.toDigits 16 n

/-- A character as it stands between the quotes. -/
def escaped (c : Char) : List Char :=
  if c == '\x00' then ['\\', '0']
  else if c == '\t' then ['\\', 't']
  else if c == '\r' then ['\\', 'r']
  else if c == '\n' then ['\\', 'n']
  else if c == '\x22' || c == '\\' then ['\\', c]
  else if isShapeless c then ['\\', 'u', '\x7b'] ++ hexDigits c.toNat ++ ['\x7d']
  else [c]

/-- A text in double quotes, with escapes. -/
def quoted (text : String) : String :=
  String.ofList (['\x22'] ++ text.toList.flatMap escaped ++ ['\x22'])

end Text

end PrettyMarkup
