import Reshape.Number.Numeral
import Reshape.Text.Blank

/-!
Integers of a signed 64-bit word. Arithmetic on them is done on `Int` and followed by a check of the
range, so a result is exact or refused.
-/

namespace Reshape.Word

def least : Int := -9223372036854775808

def greatest : Int := 9223372036854775807

/-- Whether `n` is one of the integers from `-2^63` to `2^63 - 1`. -/
def holds (n : Int) : Bool := least ≤ n && n ≤ greatest

/-- `n`, if it is in range. -/
def fit? (n : Int) : Option Int := if holds n then some n else none

/-- `a * b`, if it is in range. -/
def mul? (a b : Int) : Option Int := fit? (a * b)

/-- The quotient rounded toward zero. It is refused for a divisor of zero, and if it is out of
range. -/
def div? (a b : Int) : Option Int := if b = 0 then none else fit? (a.tdiv b)

/-- The remainder that this quotient leaves, refused along with it. -/
def rem? (a b : Int) : Option Int := (div? a b).map fun _ => a.tmod b

/-- The integer of an integer literal in range. -/
def ofNumeral? (n : Numeral) : Option Int := n.integer?.bind fit?

/-- Reads an optionally signed run of digits in range, with no blanks around it. -/
def read? (s : String) : Option Int := (Numeral.read? s.toList).bind ofNumeral?

theorem fit?_eq_some_iff {n m : Int} : fit? n = some m ↔ holds n = true ∧ n = m := by
  unfold fit?
  split <;> simp_all

end Reshape.Word
