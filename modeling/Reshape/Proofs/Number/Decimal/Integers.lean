import Reshape.Proofs.Number.Decimal.Division
import Reshape.Proofs.Number.Decimal.Power

/-!
Decimals that are integers. An operation on two of them whose exact result is an integer gives this
result, or nothing where it is out of range; and it is written with a zero after the point.
-/

namespace Reshape.Decimal

variable {d x y : Decimal} {x? : Option Decimal} {n : Numeral} {i j : Int} {count : Nat}

/-- The decimal that is the integer `i`, or nothing because `i` is out of range. -/
def IsInteger (i : Int) : Option Decimal → Prop
  | some d => d.value = i
  | none => limit ≤ i.natAbs

theorem Rounds.isInteger (rounds : Rounds i x?) : IsInteger i x? := by
  cases x? with
  | some d => exact rounds.value_eq_intCast
  | none =>
    refine not_lt.mp fun small => ?_
    obtain ⟨d, absent, -⟩ := rounds.exact (representable_intCast_iff.mpr small)
    cases absent

/-! ### Operations -/

theorem isInteger_add? (left : x.value = i) (right : y.value = j) :
    IsInteger (i + j) (add? x y) := by
  have rounds := add?_rounds x y
  rw [left, right, ← Int.cast_add] at rounds
  exact rounds.isInteger

theorem isInteger_sub? (left : x.value = i) (right : y.value = j) :
    IsInteger (i - j) (sub? x y) := by
  have rounds := sub?_rounds x y
  rw [left, right, ← Int.cast_sub] at rounds
  exact rounds.isInteger

theorem isInteger_mul? (left : x.value = i) (right : y.value = j) :
    IsInteger (i * j) (mul? x y) := by
  have rounds := mul?_rounds x y
  rw [left, right, ← Int.cast_mul] at rounds
  exact rounds.isInteger

/-- Powers do not come back into range. -/
theorem limit_le_pow_of_le {k : Nat} (outside : limit ≤ (i ^ k).natAbs) (below : k ≤ count) :
    limit ≤ (i ^ count).natAbs := by
  rw [Int.natAbs_pow] at *
  rcases Nat.eq_zero_or_pos i.natAbs with zero | positive
  · have unit : i.natAbs ^ k ≤ 1 := by
      rw [zero]
      exact (Nat.pow_le_pow_left (Nat.zero_le 1) k).trans_eq (one_pow k)
    exact absurd (outside.trans unit) (by decide)
  · exact outside.trans (Nat.pow_le_pow_right positive below)

theorem isInteger_pow? (base : x.value = i) (count : Nat) :
    IsInteger (i ^ count) (pow? x count) := by
  have powers : Powers mul? (fun k result => IsInteger (i ^ k) result) count :=
    { multiplied := fun k l y z left right _ => by
        rw [pow_add]
        exact isInteger_mul? left right
      failed := fun k overflow below => limit_le_pow_of_le overflow below }
  have unit : IsInteger (i ^ 0) (some one) := by simp [IsInteger, one, value]
  have first : IsInteger (i ^ 1) (some x) := by rwa [pow_one]
  have power := powers.power? unit first
  rw [pow?, Int.natAbs_natCast]
  generalize power? mul? one x count = result at *
  cases result with
  | none => exact power
  | some y =>
    rw [Option.bind_eq_bind, Option.bind_some, if_pos (Int.natCast_nonneg count)]
    exact power

/-! ### Division -/

theorem floorRemainder_intCast (i j : Int) :
    floorRemainder i j = (i - j * ⌊(i / j : ℚ)⌋ : Int) := by
  rw [floorRemainder]
  push_cast
  rfl

theorem natAbs_floorRemainder_lt (i : Int) (nonzero : j ≠ 0) :
    (i - j * ⌊(i / j : ℚ)⌋).natAbs < j.natAbs := by
  have small := abs_floorRemainder_lt (i : ℚ) (show (j : ℚ) ≠ 0 by exact_mod_cast nonzero)
  rw [floorRemainder_intCast] at small
  rw [← Int.cast_abs, ← Int.cast_abs, Int.abs_eq_natAbs, Int.abs_eq_natAbs] at small
  exact_mod_cast small

theorem isInteger_floorMod? (left : x.value = i) (right : y.value = j) (nonzero : j ≠ 0) :
    IsInteger (i - j * ⌊(i / j : ℚ)⌋) (floorMod? x y) := by
  have divisor : y.value ≠ 0 := by
    rw [right]
    exact_mod_cast nonzero
  have divisorInRange : j.natAbs < limit := representable_intCast_iff.mp ⟨y, right⟩
  obtain ⟨r, found, rounded⟩ := exists_roundedRemainder x divisor
  have same := rounded.exact_iff
  rw [left, right, floorRemainder_intCast, representable_intCast_iff] at same
  rw [found]
  exact same.mpr ((natAbs_floorRemainder_lt i nonzero).trans divisorInRange)

/-- What the remainder leaves of the dividend needs the room. -/
theorem isInteger_floorDiv? (left : x.value = i) (right : y.value = j) (nonzero : j ≠ 0)
    (room : i.natAbs + j.natAbs ≤ limit) : IsInteger ⌊(i / j : ℚ)⌋ (floorDiv? x y) := by
  have divisor : y.value ≠ 0 := by
    rw [right]
    exact_mod_cast nonzero
  have small := natAbs_floorRemainder_lt i nonzero
  have remainder : Representable (floorRemainder x.value y.value) := by
    rw [left, right, floorRemainder_intCast, representable_intCast_iff]
    omega
  have whole : Representable (x.value - floorRemainder x.value y.value) := by
    rw [left, right, floorRemainder_intCast, ← Int.cast_sub, representable_intCast_iff]
    omega
  have rounds := floorDiv?_rounds divisor remainder whole
  rw [left, right] at rounds
  exact rounds.isInteger

/-! ### Text -/

theorem exists_ofPlain? (read : n.integer? = some i) (inRange : i.natAbs < limit) :
    ∃ d, ofPlain? n = some d ∧ d.value = i := by
  obtain ⟨plain, pointless, -, exact⟩ := Numeral.integer?_eq_some read
  have none : n.fractionDigits = [] := by rw [Numeral.fractionDigits, pointless, Option.getD_none]
  have coefficient : n.coefficient = i.natAbs := by
    rw [exact, Numeral.coefficient, none, List.append_nil]
    split <;> simp
  obtain ⟨d, plainly⟩ := Option.isSome_iff_exists.mp
    ((isSome_ofPlain?_iff plain).mpr ⟨coefficient ▸ inRange, by rw [none]; exact Nat.zero_le 28⟩)
  obtain ⟨-, -, -, value⟩ := ofPlain?_eq_some plainly
  exact ⟨d, plainly, value.trans (Numeral.value_of_integer? read)⟩

theorem splitDigits_zero (coefficient : Nat) :
    splitDigits coefficient 0 = (Digit.ofNat coefficient, []) := by
  obtain ⟨first, rest, digits, -⟩ := Digit.ofNat_leading coefficient
  have unpadded : 0 + 1 - (Digit.ofNat coefficient).length = 0 := by
    rw [digits, List.length_cons]
    omega
  rw [splitDigits]
  simp [unpadded]

theorem dropZeros_of_mul (magnitude scale : Nat) :
    dropZeros (magnitude * 10 ^ scale) scale = (magnitude, 0) := by
  induction scale with
  | zero => rw [dropZeros, pow_zero, Nat.mul_one]
  | succ scale ih =>
    have last : magnitude * 10 ^ (scale + 1) = magnitude * 10 ^ scale * 10 := by
      rw [pow_succ, Nat.mul_assoc]
    rw [dropZeros, last, if_pos (Nat.mul_mod_left _ 10), Nat.mul_div_cancel _ (by decide), ih]

theorem toNumeral_of_intCast (integral : d.value = i) :
    d.toNumeral = { Numeral.ofInt i with fraction := some [Digit.zero] } := by
  have coefficient : d.coefficient = i * 10 ^ d.scale := by
    rw [value, div_eq_iff (by positivity)] at integral
    exact_mod_cast integral
  have magnitude : d.coefficient.natAbs = i.natAbs * 10 ^ d.scale := by
    rw [coefficient, Int.natAbs_mul, Int.natAbs_pow]
    rfl
  have sign : d.isNegative = decide (i < 0) := by
    rw [isNegative_eq, integral]
    simp
  simp [toNumeral, magnitude, dropZeros_of_mul, splitDigits_zero, sign, Numeral.ofInt]

end Reshape.Decimal
