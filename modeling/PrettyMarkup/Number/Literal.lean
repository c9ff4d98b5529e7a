import PrettyMarkup.Number.Binary64

/-!
# Numbers as written

Reads integers and decimals from their digits.  Signs stand in front; the exponent
of a decimal follows an `e` in either case.
-/

namespace PrettyMarkup

namespace Number

/-- The value of a digit in a base up to sixteen. -/
def digitValue? (base : Nat) (c : Char) : Option Nat :=
  let n := c.toNat
  let value :=
    if 0x30 ≤ n && n ≤ 0x39 then n - 0x30
    else if 0x41 ≤ n && n ≤ 0x46 then n - 0x41 + 10
    else if 0x61 ≤ n && n ≤ 0x66 then n - 0x61 + 10
    else 16
  if value < base then some value else none

/-- The natural number of one or more digits. -/
def natural? (base : Nat) (digits : List Char) : Option Nat :=
  if digits.isEmpty then none else
    digits.foldlM (fun n c => (digitValue? base c).map (n * base + ·)) 0

/-- Takes a sign off, and says whether it was a minus. -/
def splitSign : List Char → Bool × List Char
  | '-' :: rest => (true, rest)
  | '+' :: rest => (false, rest)
  | text => (false, text)

/-- An integer in decimal digits, with or without a sign. -/
def integer? (text : List Char) : Option Int :=
  let (negative, digits) := splitSign text
  (natural? 10 digits).map fun n => if negative then -(n : Int) else n

/-- Whether an integer fits into 64 bits with a sign. -/
def fitsWord (n : Int) : Bool := -0x8000000000000000 ≤ n && n < 0x8000000000000000

def isExponentMark (c : Char) : Bool := c == 'e' || c == 'E'

/-- Digits with a point among them, as a number of digits and the count of those after it. -/
def fixed? (text : List Char) : Option (Nat × Nat) :=
  let whole := text.takeWhile (· != '.')
  match text.dropWhile (· != '.') with
  | [] => (natural? 10 whole).map fun n => (n, 0)
  | _ :: places => (natural? 10 (whole ++ places)).map fun n => (n, places.length)

/-- A decimal, or one of the names `inf` and `nan` in any case. -/
def decimal? (text : List Char) : Option Binary64 :=
  let (negative, magnitude) := splitSign text
  match String.ofList (magnitude.map Char.toLower) with
  | "inf" => some (.infinite negative)
  | "nan" => some .nan
  | _ => do
    let (digits, places) ← fixed? (magnitude.takeWhile fun c => !isExponentMark c)
    let power ← match magnitude.dropWhile (fun c => !isExponentMark c) with
      | [] => some 0
      | _ :: exponent => integer? exponent
    return .ofDecimal negative digits (power - places)

end Number

end PrettyMarkup
