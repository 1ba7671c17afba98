import Reshape.Lookup.Arithmetic
import Reshape.Proofs.Number.Division

/-!
What the operators mean for exact numbers, and how the arithmetic lookup gets from a number and the
text of its operand to two quantities and back.
-/

namespace Reshape

/-- `c` is the exact result for `a` and `b`. There is none for a divisor of zero, and none here for
an exponent that is not a natural number. -/
def Operator.Exact (op : Operator) (a b c : ℚ) : Prop :=
  match op with
  | .add => c = a + b
  | .sub => c = a - b
  | .mul => c = a * b
  | .div => b ≠ 0 ∧ c = a / b
  | .floorDiv => b ≠ 0 ∧ c = ⌊a / b⌋
  | .mod => b ≠ 0 ∧ c = floorRemainder a b
  | .pow => ∃ n : Nat, b = n ∧ c = a ^ n

namespace Arithmetic

variable {lookup : Arithmetic} {n m : Numeral} {left right result : Quantity}

/-- The lookup takes a number and its operand for these two quantities, in this order. -/
def Takes (lookup : Arithmetic) (n : Numeral) (left right : Quantity) : Prop :=
  ∃ value operand, Quantity.ofNumeral? n = some value ∧ lookup.operandLike value = .ok operand ∧
    (left, right) = if lookup.reverse then (operand, value) else (value, operand)

theorem Takes.evaluate_eq (takes : lookup.Takes n left right) :
    lookup.evaluate (.number n) =
      ((apply lookup.operator left right).mapError lookup.fault).bind fun result =>
        ((orFault .notFinite result.toNumeral?).mapError lookup.fault).bind (.ok <| .number ·) := by
  obtain ⟨value, operand, known, read, sides⟩ := takes
  have given : (orFault .unrepresentable (Quantity.ofNumeral? n)).mapError lookup.fault =
      .ok value := by rw [known]; rfl
  simp only [evaluate, given, bind, Except.bind, read]
  cases flag : lookup.reverse with
  | false =>
    rw [flag] at sides
    cases sides
    rfl
  | true =>
    rw [flag] at sides
    cases sides
    rfl

theorem Takes.evaluate_eq_ok (takes : lookup.Takes n left right)
    (computed : apply lookup.operator left right = .ok result)
    (finite : result.toNumeral? = some m) : lookup.evaluate (.number n) = .ok (.number m) := by
  rw [takes.evaluate_eq, computed]
  simp only [Except.mapError, Except.bind, finite, orFault]

theorem Takes.evaluate_eq_error {cause : ArithmeticFault} (takes : lookup.Takes n left right)
    (failed : apply lookup.operator left right = .error cause) :
    lookup.evaluate (.number n) = .error (.arithmetic lookup.operator cause) := by
  rw [takes.evaluate_eq, failed]
  rfl

end Arithmetic

end Reshape
