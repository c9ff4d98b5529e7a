/-!
# Blank characters

The Unicode White_Space property, and removing blanks from the ends of a text.

## Implementation notes

Texts are lists of characters here: the scanners and their laws are recursions
on the list, and a `String` is formed only where a text leaves the library.
-/

namespace PrettyMarkup

namespace Text

/-- What is said of every character of a text is decided along the text.  There are finitely many
characters, so it could be decided along all of them, which takes too long. -/
instance decidableForallMem (p : Char → Prop) [DecidablePred p] (text : List Char) :
    Decidable (∀ c ∈ text, p c) := List.decidableBAll p text

/-- Whether a character has the Unicode property White_Space. -/
def isBlank (c : Char) : Bool :=
  let n := c.toNat
  (0x9 ≤ n && n ≤ 0xD) || n == 0x20 || n == 0x85 || n == 0xA0 || n == 0x1680 ||
    (0x2000 ≤ n && n ≤ 0x200A) || n == 0x2028 || n == 0x2029 || n == 0x202F ||
    n == 0x205F || n == 0x3000

/-- A carriage return or a line feed. -/
def isLineBreak (c : Char) : Bool := c == '\r' || c == '\n'

theorem isBlank_of_isLineBreak {c : Char} (h : isLineBreak c = true) : isBlank c = true := by
  simp only [isLineBreak, Bool.or_eq_true, beq_iff_eq] at h
  rcases h with rfl | rfl <;> decide

/-- A text without the blanks at its start. -/
def trimStart (text : List Char) : List Char := text.dropWhile isBlank

/-- A text without the blanks at its end. -/
def trimEnd (text : List Char) : List Char := (trimStart text.reverse).reverse

/-- A text without the blanks at either end. -/
def trim (text : List Char) : List Char := trimEnd (trimStart text)

/-- A text with every blank deleted. -/
def eraseBlanks (text : List Char) : List Char := text.filter fun c => !isBlank c

@[simp] theorem trimStart_nil : trimStart [] = [] := rfl

@[simp] theorem trimEnd_nil : trimEnd [] = [] := rfl

@[simp] theorem trim_nil : trim [] = [] := rfl

@[simp] theorem eraseBlanks_nil : eraseBlanks [] = [] := rfl

@[simp] theorem eraseBlanks_append (s t : List Char) :
    eraseBlanks (s ++ t) = eraseBlanks s ++ eraseBlanks t := by
  simp [eraseBlanks]

/-- What stands in front of the first character that is kept is blank. -/
theorem takeWhile_append_trimStart (text : List Char) :
    text.takeWhile isBlank ++ trimStart text = text :=
  List.takeWhile_append_dropWhile

end Text

end PrettyMarkup
