import Reshape.Number.Numeral
import Reshape.Number.Power
import Reshape.Number.Rounding

/-!
Decimals: fixed-point numbers of 96 bits with up to 28 digits after the point. A result that needs
more is rounded half to even at the largest scale on which it fits; one that does not fit on scale
zero either is an overflow.
-/

namespace Reshape

/-- Coefficients are below `2^96`. -/
def Decimal.limit : Nat := 79228162514264337593543950336

/-- The number `coefficient / 10 ^ scale`. -/
structure Decimal where
  coefficient : Int
  scale : Nat
  coefficient_lt : coefficient.natAbs < Decimal.limit := by decide
  scale_le : scale ≤ 28 := by decide
  deriving DecidableEq, Repr

namespace Decimal

def one : Decimal := ⟨1, 0, by decide, by decide⟩

def make? (coefficient : Int) (scale : Nat) : Option Decimal :=
  if h : coefficient.natAbs < limit ∧ scale ≤ 28 then some ⟨coefficient, scale, h.1, h.2⟩ else none

def isZero (a : Decimal) : Bool := a.coefficient = 0

def isNegative (a : Decimal) : Bool := a.coefficient < 0

/-! ### Exact quotients, rounded -/

/-- The first decimal among scales `scale`, `scale - 1`, … 0 that holds the rounded quotient. -/
def roundFrom? (numerator : Int) (denominator : Nat) : Nat → Option Decimal
  | 0 => make? (numerator.sign * roundHalfEven numerator.natAbs denominator) 0
  | scale + 1 =>
    let coefficient := roundHalfEven (numerator.natAbs * tenPow (scale + 1)) denominator
    match make? (numerator.sign * coefficient) (scale + 1) with
    | some d => some d
    | none => roundFrom? numerator denominator scale

def ofQuotient? (numerator : Int) (denominator : Nat) : Option Decimal :=
  roundFrom? numerator denominator 28

def coefficientAt (a : Decimal) (scale : Nat) : Int := a.coefficient * tenPow (scale - a.scale)

def add? (a b : Decimal) : Option Decimal :=
  let scale := max a.scale b.scale
  ofQuotient? (a.coefficientAt scale + b.coefficientAt scale) (tenPow scale)

def sub? (a b : Decimal) : Option Decimal :=
  let scale := max a.scale b.scale
  ofQuotient? (a.coefficientAt scale - b.coefficientAt scale) (tenPow scale)

def mul? (a b : Decimal) : Option Decimal :=
  ofQuotient? (a.coefficient * b.coefficient) (tenPow (a.scale + b.scale))

def div? (a b : Decimal) : Option Decimal :=
  ofQuotient? (a.coefficient * tenPow b.scale * b.coefficient.sign)
    (b.coefficient.natAbs * tenPow a.scale)

/-- The remainder of the division toward zero, which has the sign of the dividend. -/
def rem? (a b : Decimal) : Option Decimal :=
  let scale := max a.scale b.scale
  make? ((a.coefficientAt scale).tmod (b.coefficientAt scale)) scale

/-- The remainder moved to the sign of the divisor. -/
def floorMod? (a b : Decimal) : Option Decimal := do
  let r ← rem? a b
  if !r.isZero && r.isNegative != b.isNegative then add? r b else some r

/-- The quotient rounded down: what is left of `a` without its remainder, divided by `b`. -/
def floorDiv? (a b : Decimal) : Option Decimal := do
  div? (← sub? a (← floorMod? a b)) b

def integer? (a : Decimal) : Option Int :=
  if a.coefficient % tenPow a.scale = 0 then some (a.coefficient / tenPow a.scale) else none

/-- Powers by repeated squaring, each product rounded; a negative power is the inverse of the
positive one, which must not have become zero. -/
def pow? (a : Decimal) (n : Int) : Option Decimal := do
  let power ← power? mul? one a n.natAbs
  if 0 ≤ n then some power
  else if power.isZero then none
  else div? one power

/-! ### Text -/

/-- Removes factors of ten from a coefficient as long as digits stand after the point. -/
def dropZeros : Nat → Nat → Nat × Nat
  | coefficient, 0 => (coefficient, 0)
  | coefficient, scale + 1 =>
    if coefficient % 10 = 0 then dropZeros (coefficient / 10) scale else (coefficient, scale + 1)

/-- Puts the digits after the point apart, filling up with zeros; there is at least one on each
side. -/
def splitDigits (coefficient scale : Nat) : List Digit × List Digit :=
  let ds := Digit.ofNat coefficient
  let ds := List.replicate (scale + 1 - ds.length) Digit.zero ++ ds
  (ds.take (ds.length - scale), ds.drop (ds.length - scale))

/-- The numeral of a decimal: plain, with at least one digit after the point and no other zero at
its end. -/
def toNumeral (a : Decimal) : Numeral :=
  let (coefficient, scale) := dropZeros a.coefficient.natAbs a.scale
  let (whole, fraction) := splitDigits coefficient scale
  ⟨a.isNegative, whole, some (if fraction.isEmpty then [Digit.zero] else fraction), none⟩

/-- The decimal that a plain numeral denotes exactly, on the scale of its written digits. -/
def ofPlain? (n : Numeral) : Option Decimal :=
  if n.isPlain then
    make? (if n.negative then -(n.coefficient : Int) else n.coefficient) n.fractionDigits.length
  else none

end Decimal

end Reshape
