import Reshape.Number.Binary64.Arithmetic
import Reshape.Number.Decimal

/-!
Decimals as floats. A decimal with digits after the point is put together from its two sides and
then rounded to its scale, so the result can differ from the nearest float in the last place.
-/

namespace Reshape.Binary64

def ofNat (n : Nat) : Binary64 := ofInt n

/-- The float of a decimal's absolute value. -/
def ofMagnitude (coefficient scale : Nat) : Binary64 :=
  if scale = 0 then ofNat coefficient
  else
    let unit := ofNat (tenPow scale)
    let fraction := coefficient % tenPow scale
    let sum := (ofNat (coefficient / tenPow scale)).add ((ofNat fraction).div unit)
    if fraction = 0 then sum else ((sum.mul unit).nearest).div unit

def ofDecimal (d : Decimal) : Binary64 :=
  let x := ofMagnitude d.coefficient.natAbs d.scale
  if d.isNegative then x.neg else x

end Reshape.Binary64
