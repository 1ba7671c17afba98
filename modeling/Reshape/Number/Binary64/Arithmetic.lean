import Reshape.Number.Binary64

/-!
Floating-point arithmetic: sums, products and quotients, each rounded once, and the integers next to
a number. Signs of zeros and the cases of infinities and of no number are those of IEEE 754.
-/

namespace Reshape.Binary64

def neg : Binary64 → Binary64
  | nan => nan
  | infinite s => infinite !s
  | finite s m e => finite (!s) m e

/-- The significand with its sign, on an exponent that is at most its own. -/
def unitsAt (negative : Bool) (significand : Nat) (exponent least : Int) : Int :=
  let units : Int := significand * twoPow (exponent - least).toNat
  if negative then -units else units

/-- A sum of zero is negative only if both terms are. -/
def add : Binary64 → Binary64 → Binary64
  | finite s m e, finite t n f =>
    let least := min e f
    let sum := unitsAt s m e least + unitsAt t n f least
    if sum = 0 then zero (s && t) else ofScaled (sum < 0) sum.natAbs least
  | infinite s, infinite t => if s = t then infinite s else nan
  | infinite s, finite .. => infinite s
  | finite .., infinite t => infinite t
  | _, _ => nan

def sub (x y : Binary64) : Binary64 := add x y.neg

def mul : Binary64 → Binary64 → Binary64
  | finite s m e, finite t n f => ofScaled (s ^^ t) (m * n) (e + f)
  | infinite s, infinite t => infinite (s ^^ t)
  | infinite s, finite t n _ => if n = 0 then nan else infinite (s ^^ t)
  | finite s m _, infinite t => if m = 0 then nan else infinite (s ^^ t)
  | _, _ => nan

def div : Binary64 → Binary64 → Binary64
  | finite s m e, finite t n f =>
    if n = 0 then (if m = 0 then nan else infinite (s ^^ t))
    else round (s ^^ t) (m * twoPow (e - f).toNat) (n * twoPow (f - e).toNat)
  | infinite s, finite t _ _ => infinite (s ^^ t)
  | finite s _ _, infinite t => zero (s ^^ t)
  | _, _ => nan

/-! ### Neighbouring integers -/

/-- The integer next to a finite number in the direction of zero. -/
def truncate? : Binary64 → Option Int
  | finite s m e =>
    let magnitude : Nat := if 0 ≤ e then m * twoPow e.toNat else m / twoPow (-e).toNat
    some (if s then -(magnitude : Int) else magnitude)
  | _ => none

/-- The greatest integer that is not above the number. -/
def floor : Binary64 → Binary64
  | finite s m e =>
    if 0 ≤ e ∨ m = 0 then finite s m e
    else ofInt ((if s then -(m : Int) else m) / twoPow (-e).toNat)
  | x => x

/-- The nearest integer, a half away from zero; a zero keeps the sign. -/
def nearest : Binary64 → Binary64
  | finite s m e =>
    if 0 ≤ e then finite s m e else round s (roundHalfUp m (twoPow (-e).toNat)) 1
  | x => x

end Reshape.Binary64
