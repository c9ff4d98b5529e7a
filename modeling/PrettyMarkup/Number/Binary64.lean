/-!
# Binary floating point of 64 bits

A value is an integer times a power of two.  A decimal is rounded to the nearest
value, a tie to the even significand, in exact integer arithmetic.

## Implementation notes

Decimals beyond the range are recognised by their exponent before any power is
formed, so that a long exponent costs nothing.
-/

namespace PrettyMarkup

namespace Number

/-- A floating point value. -/
inductive Binary64 where
  | nan
  | infinite (negative : Bool)
  /-- The value `significand * 2 ^ exponent`, with its sign. -/
  | finite (negative : Bool) (significand : Nat) (exponent : Int)
  deriving DecidableEq, Repr

namespace Binary64

/-- The least exponent, that of the values around zero. -/
def minExponent : Int := -1074

/-- The greatest exponent. -/
def maxExponent : Int := 971

def zero (negative : Bool) : Binary64 := finite negative 0 minExponent

/-- The least significand of 53 bits. -/
def leastNormal : Nat := 0x10000000000000

/-- A power of a base, which is one for an exponent below zero. -/
def power (base : Nat) (exponent : Int) : Nat := Nat.pow base exponent.toNat

/-- Zero of either sign. -/
def isZero : Binary64 → Bool
  | finite _ significand _ => significand == 0
  | _ => false

/-- A quotient rounded to the nearest integer, a tie to the even one. -/
def divNearest (n d : Nat) : Nat :=
  let quotient := n / d
  let remainder := n % d
  if 2 * remainder < d || (2 * remainder == d && quotient % 2 == 0) then quotient
  else quotient + 1

/-- The exponent at which `n / d` has a significand of 53 bits, or the least exponent. -/
def exponentOf (n d : Nat) : Int :=
  let guess : Int := (n.log2 : Int) - d.log2 - 52
  let above := n * power 2 (-(guess + 52)) < d * power 2 (guess + 52)
  max minExponent (if above then guess - 1 else guess)

/-- The value nearest to `n / d`, where `d` is positive. -/
def nearest (negative : Bool) (n d : Nat) : Binary64 :=
  if n == 0 then zero negative else
    let exponent := exponentOf n d
    let significand := divNearest (n * power 2 (-exponent)) (d * power 2 exponent)
    let (significand, exponent) :=
      if significand == 2 * leastNormal then (leastNormal, exponent + 1)
      else (significand, exponent)
    if maxExponent < exponent then infinite negative
    else finite negative significand exponent

/-- The value nearest to `digits * 10 ^ exponent`. -/
def ofDecimal (negative : Bool) (digits : Nat) (exponent : Int) : Binary64 :=
  if digits == 0 then zero negative
  else if 400 < exponent then infinite negative
  else if exponent + digits.log2 < -400 then zero negative
  else nearest negative (digits * power 10 exponent) (power 10 (-exponent))

end Binary64

end Number

end PrettyMarkup
