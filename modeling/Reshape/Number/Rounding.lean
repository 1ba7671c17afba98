/-!
Rounding a quotient of natural numbers to a natural number.
-/

namespace Reshape

/-- `numerator / denominator` rounded to the nearest natural number, a half to the even one. -/
def roundHalfEven (numerator denominator : Nat) : Nat :=
  let q := numerator / denominator
  let r := numerator % denominator
  if 2 * r < denominator then q
  else if denominator < 2 * r then q + 1
  else q + q % 2

/-- `numerator / denominator` rounded to the nearest natural number, a half upwards. -/
def roundHalfUp (numerator denominator : Nat) : Nat :=
  (2 * numerator + denominator) / (2 * denominator)

end Reshape
