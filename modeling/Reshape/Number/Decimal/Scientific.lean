import Reshape.Number.Decimal

/-!
Decimals read from numerals with an exponent. The digits before the exponent need not all fit: what
is left over after the point is rounded away by its first digit alone.
-/

namespace Reshape.Decimal

/-- Appends digits after the point while they fit. The first one that does not rounds the
coefficient, a five upwards, and ends the reading; a coefficient rounded out of range gives up its
last digit. -/
def appendFraction? (coefficient scale : Nat) : List Digit → Option (Nat × Nat)
  | [] => some (coefficient, scale)
  | d :: ds =>
    if scale < 28 ∧ 10 * coefficient + d.val < limit then
      appendFraction? (10 * coefficient + d.val) (scale + 1) ds
    else if d.val < 5 then some (coefficient, scale)
    else if coefficient + 1 < limit then some (coefficient + 1, scale)
    else if scale = 0 then none
    else some ((coefficient + 5) / 10, scale - 1)

/-- Multiplies by a power of ten of absolute value at most 28: on the digits after the point where
these suffice, else on the coefficient. -/
def shift? (coefficient : Int) (scale : Nat) (power : Int) : Option Decimal :=
  if power < -28 ∨ 28 < power then none
  else if power ≤ scale then make? coefficient (scale - power).toNat
  else make? (coefficient * tenPow (power - scale).toNat) 0

/-- The decimal of a numeral in exponent notation. -/
def ofScientific? (n : Numeral) : Option Decimal := do
  if n.isPlain then none
  else
    let whole := Digit.toNat n.whole
    if whole < limit then
      let (coefficient, scale) ← appendFraction? whole 0 n.fractionDigits
      shift? (if n.negative then -(coefficient : Int) else coefficient) scale n.exponentValue
    else none

end Reshape.Decimal
