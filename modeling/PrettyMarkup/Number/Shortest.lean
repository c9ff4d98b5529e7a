import PrettyMarkup.Number.Binary64

/-!
# The shortest decimal of a floating point value

The text of a value has the fewest digits that read back as it, and of those the
nearest.  It is written in positional notation, without an exponent.

## Implementation notes

The numbers that round to a value form an interval, its ends included if the
significand is even.  On the grid of decimals with a given number of digits it is
enough to look at the two neighbours of the value.
-/

namespace PrettyMarkup

namespace Number

namespace Binary64

/-- The end of the interval below, in quarters of the last bit of the significand; it is nearer
where the values below lie closer together. -/
def lowQuarters (significand : Nat) (exponent : Int) : Nat :=
  if significand == leastNormal && minExponent < exponent then 4 * significand - 1
  else 4 * significand - 2

/-- The end of the interval above, in quarters of the last bit. -/
def highQuarters (significand : Nat) : Nat := 4 * significand + 2

/-- The digits in units of `10 ^ place` that lie next to the value and round to it.  If both
neighbours do, the nearer one is taken, and of two that are equally near the upper one. -/
def digitsAt? (significand : Nat) (exponent place : Int) : Option Nat :=
  let scale := power 2 (exponent - 2) * power 10 (-place)
  let unit := power 2 (2 - exponent) * power 10 place
  let value := 4 * significand * scale
  let low := lowQuarters significand exponent * scale
  let high := highQuarters significand * scale
  let fits (digits : Nat) : Bool :=
    if significand % 2 == 0 then low ≤ digits * unit && digits * unit ≤ high
    else low < digits * unit && digits * unit < high
  let below := value / unit
  let above := below + 1
  match fits below, fits above with
  | true, true => some (if value - below * unit < above * unit - value then below else above)
  | true, false => some below
  | false, true => some above
  | false, false => none

/-- The number of digits before the point, counted down below zero for leading zeros after it. -/
def pointPosition (significand : Nat) (exponent : Int) : Int :=
  let guess := ((significand.log2 : Int) + exponent) * 30103 / 100000
  let reaches (position : Int) : Bool :=
    significand * power 2 exponent * power 10 (-position) <
      power 10 position * power 2 (-exponent)
  (([guess - 1, guess, guess + 1].find? reaches).getD (guess + 2))

/-- The shortest digits and the power of ten they count, for a significand that is not zero. -/
def shortestDigits (significand : Nat) (exponent : Int) : Nat × Int :=
  let position := pointPosition significand exponent
  let found := (List.range 17).findSome? fun (n : Nat) =>
    let place := position - (n + 1)
    (digitsAt? significand exponent place).map fun digits => (digits, place)
  match found with
  | some (digits, place) => if digits % 10 == 0 then (digits / 10, place + 1) else (digits, place)
  | none => (significand, exponent)

/-- Digits in units of `10 ^ place`, with the point where it belongs. -/
def positional (digits : Nat) (place : Int) : List Char :=
  let written := Nat.toDigits 10 digits
  if 0 ≤ place then written ++ List.replicate place.toNat '0'
  else
    let places := (-place).toNat
    let padded := List.replicate (places + 1 - written.length) '0' ++ written
    padded.take (padded.length - places) ++ ['.'] ++ padded.drop (padded.length - places)

/-- The shortest text that reads back as the value. -/
def toText : Binary64 → String
  | nan => "NaN"
  | infinite negative => if negative then "-inf" else "inf"
  | finite negative significand exponent =>
    let (digits, place) :=
      if significand == 0 then (0, 0) else shortestDigits significand exponent
    String.ofList ((if negative then ['-'] else []) ++ positional digits place)

/-- The shortest text, with a point in every finite value. -/
def toPointedText (value : Binary64) : String :=
  let text := value.toText
  match value with
  | finite .. => if text.toList.contains '.' then text else text ++ ".0"
  | _ => text

end Binary64

end Number

end PrettyMarkup
