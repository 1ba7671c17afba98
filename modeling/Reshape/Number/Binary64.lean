import Reshape.Number.Numeral
import Reshape.Number.Power
import Reshape.Number.Rounding

/-!
Binary floating-point numbers of 64 bits. Every operation computes the exact quotient of integers
that it stands for and rounds it once, to the nearest number and a half to the even significand.
-/

namespace Reshape

/-- A finite number is `± significand * 2 ^ exponent`, with a significand below `2^53` and an
exponent from -1074 to 971; the significand is below `2^52` at the least exponent only. -/
inductive Binary64 where
  | nan
  | infinite (negative : Bool)
  | finite (negative : Bool) (significand : Nat) (exponent : Int)
  deriving DecidableEq, Repr

namespace Binary64

/-- The bit that a significand has at every exponent but the least. -/
def leadingBit : Nat := 4503599627370496

def zero (negative : Bool) : Binary64 := finite negative 0 (-1074)

def isFinite : Binary64 → Bool
  | finite .. => true
  | _ => false

def isZero : Binary64 → Bool
  | finite _ 0 _ => true
  | _ => false

def finite? (x : Binary64) : Option Binary64 := if x.isFinite then some x else none

/-! ### Rounding -/

/-- The quotient of `numerator / denominator` by `2 ^ exponent`. -/
def unitsOf (numerator denominator : Nat) (exponent : Int) : Nat × Nat :=
  if 0 ≤ exponent then (numerator, denominator * twoPow exponent.toNat)
  else (numerator * twoPow (-exponent).toNat, denominator)

/-- The exponent at which a positive quotient has 53 bits before the point, and at least -1074. -/
def exponentFor (numerator denominator : Nat) : Int :=
  let exponent := max (-1074) ((numerator.log2 : Int) - denominator.log2 - 53)
  let (n, d) := unitsOf numerator denominator exponent
  if 2 * leadingBit ≤ n / d then exponent + 1 else exponent

/-- The number nearest to a quotient; a quotient that would need an exponent over 971 is infinite.
-/
def round (negative : Bool) (numerator denominator : Nat) : Binary64 :=
  if numerator = 0 then zero negative
  else
    let exponent := exponentFor numerator denominator
    let (n, d) := unitsOf numerator denominator exponent
    let significand := roundHalfEven n d
    if significand < 2 * leadingBit then
      if 971 < exponent then infinite negative else finite negative significand exponent
    else if 970 < exponent then infinite negative
    else finite negative leadingBit (exponent + 1)

/-- The number nearest to `significand * 2 ^ exponent`. -/
def ofScaled (negative : Bool) (significand : Nat) (exponent : Int) : Binary64 :=
  if 0 ≤ exponent then round negative (significand * twoPow exponent.toNat) 1
  else round negative significand (twoPow (-exponent).toNat)

def ofInt (i : Int) : Binary64 := round (i < 0) i.natAbs 1

/-- The number nearest to what a numeral denotes. Beyond 400 places from the point all is infinite
or zero, so no larger power of ten is computed. -/
def ofNumeral (n : Numeral) : Binary64 :=
  let coefficient := n.coefficient
  if coefficient = 0 then zero n.negative
  else
    let places : Int := (Digit.ofNat coefficient).length + n.power
    if 400 < places then infinite n.negative
    else if places < -400 then zero n.negative
    else if 0 ≤ n.power then round n.negative (coefficient * tenPow n.power.toNat) 1
    else round n.negative coefficient (tenPow (-n.power).toNat)

/-- Reads a numeral that is the whole text and denotes a number in range. -/
def read? (s : String) : Option Binary64 :=
  (Numeral.read? s.toList).bind fun n => (ofNumeral n).finite?

end Binary64

end Reshape
