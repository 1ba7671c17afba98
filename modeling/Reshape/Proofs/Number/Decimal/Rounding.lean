import Mathlib.Algebra.Order.Field.Rat
import Mathlib.Data.Rat.Floor
import Mathlib.Tactic.FieldSimp
import Mathlib.Tactic.GCongr
import Mathlib.Tactic.Linarith
import Mathlib.Tactic.Positivity
import Mathlib.Tactic.Ring
import Reshape.Number.Decimal
import Reshape.Proofs.Number.Rounding

/-!
What decimals denote, and what the operations on them keep of the exact result: all of it where a
decimal denotes it, else up to half a unit of the last digit.
-/

namespace Reshape.Decimal

variable {a b x y z : Decimal} {x? : Option Decimal} {q : ℚ} {n : Int} {d scale : Nat}

/-- The number that a decimal denotes. -/
def value (a : Decimal) : ℚ := a.coefficient / 10 ^ a.scale

def Representable (q : ℚ) : Prop := ∃ a : Decimal, a.value = q

theorem representable_of_lt {c : Int} (small : c.natAbs < limit) (fits : scale ≤ 28) :
    Representable (c / 10 ^ scale) := ⟨⟨c, scale, small, fits⟩, rfl⟩

theorem tenPow_pos (scale : Nat) : 0 < tenPow scale := Nat.pow_pos (by decide)

@[simp]
theorem cast_tenPow (scale : Nat) : ((tenPow scale : Nat) : ℚ) = 10 ^ scale := Nat.cast_pow 10 scale

theorem value_eq_zero_iff : a.value = 0 ↔ a.coefficient = 0 := by simp [value]

theorem isZero_eq (a : Decimal) : a.isZero = decide (a.value = 0) := by
  simp [isZero, value_eq_zero_iff]

theorem isNegative_eq (a : Decimal) : a.isNegative = decide (a.value < 0) := by
  have positive : (0 : ℚ) < 10 ^ a.scale := by positivity
  simp [isNegative, value, div_neg_iff, positive, positive.not_gt]

theorem abs_value (a : Decimal) : |a.value| = a.coefficient.natAbs / 10 ^ a.scale := by
  rw [value, abs_div, abs_of_pos (show (0 : ℚ) < 10 ^ a.scale by positivity), Nat.cast_natAbs,
    Int.cast_abs]

theorem abs_value_le {more : Nat} (finer : y.scale = z.scale + more)
    (coefficient : y.coefficient.natAbs ≤ z.coefficient.natAbs * 10 ^ more) :
    |y.value| ≤ |z.value| := by
  have bound : (y.coefficient.natAbs : ℚ) ≤ z.coefficient.natAbs * 10 ^ more := by
    exact_mod_cast coefficient
  rw [abs_value, abs_value, finer, pow_add, div_le_div_iff₀ (by positivity) (by positivity)]
  calc (y.coefficient.natAbs * 10 ^ z.scale : ℚ)
      ≤ z.coefficient.natAbs * 10 ^ more * 10 ^ z.scale := by gcongr
    _ = z.coefficient.natAbs * (10 ^ z.scale * 10 ^ more) := by ring

theorem make?_eq_some {c : Int} (made : make? c scale = some a) :
    a.coefficient = c ∧ a.scale = scale := by
  unfold make? at made
  split at made
  · cases made
    exact ⟨rfl, rfl⟩
  · cases made

theorem make?_of_lt {c : Int} (small : c.natAbs < limit) (fits : scale ≤ 28) :
    make? c scale = some ⟨c, scale, small, fits⟩ := by
  rw [make?, dif_pos ⟨small, fits⟩]

theorem isSome_make?_iff {c : Int} :
    (make? c scale).isSome ↔ c.natAbs < limit ∧ scale ≤ 28 := by
  unfold make?
  split <;> simp_all

/-! ### The scale on which a quotient is rounded -/

theorem roundFrom?_eq_some (found : roundFrom? n d scale = some y) :
    y.coefficient = n.sign * roundHalfEven (n.natAbs * 10 ^ y.scale) d := by
  induction scale with
  | zero =>
    obtain ⟨coefficient, own⟩ := make?_eq_some found
    rw [own, coefficient, pow_zero, Nat.mul_one]
  | succ scale ih =>
    rw [roundFrom?] at found
    split at found
    · next made =>
      cases found
      obtain ⟨coefficient, own⟩ := make?_eq_some made
      rw [own]
      exact coefficient
    · exact ih found

theorem natAbs_sign_mul_le (n : Int) (m : Nat) : (n.sign * m).natAbs ≤ m := by
  rw [Int.natAbs_mul, Int.natAbs_sign, Int.natAbs_natCast]
  split <;> simp

theorem exists_roundFrom? {least : Nat} (small : roundHalfEven (n.natAbs * 10 ^ least) d < limit)
    (below : least ≤ scale) (fits : scale ≤ 28) :
    ∃ y, roundFrom? n d scale = some y ∧ least ≤ y.scale := by
  induction scale with
  | zero =>
    obtain rfl : least = 0 := by omega
    rw [pow_zero, Nat.mul_one] at small
    exact ⟨_, make?_of_lt ((natAbs_sign_mul_le _ _).trans_lt small) fits, le_rfl⟩
  | succ scale ih =>
    rw [roundFrom?]
    rcases Nat.lt_or_eq_of_le below with lower | rfl
    · split
      · next made => exact ⟨_, rfl, (make?_eq_some made).2 ▸ below⟩
      · exact ih (by omega) (by omega)
    · have made := make?_of_lt ((natAbs_sign_mul_le n _).trans_lt small) fits
      exact ⟨_, by rw [tenPow, Nat.pow_eq, made], le_rfl⟩

/-! ### Rounded results -/

/-- `x?` is `q` rounded, or nothing because `q` is out of range. -/
def Rounds (q : ℚ) (x? : Option Decimal) : Prop :=
  ∃ (n : Int) (d : Nat), 0 < d ∧ (n : ℚ) / d = q ∧ x? = ofQuotient? n d

namespace Rounds

/-- Number and result have the same sign; their absolute values are a quotient and what it was
rounded to. -/
theorem parts (rounds : Rounds q (some y)) :
    ∃ (s : ℚ) (m d r : Nat), 0 < d ∧ |s| ≤ 1 ∧ q = s * (m / d) ∧
      y.value = s * (r / 10 ^ y.scale) ∧ r = roundHalfEven (m * 10 ^ y.scale) d := by
  obtain ⟨n, d, positive, exact, found⟩ := rounds
  refine ⟨n.sign, n.natAbs, d, _, positive, ?_, ?_, ?_, rfl⟩
  · rcases lt_trichotomy n 0 with negative | rfl | positive
    · simp [Int.sign_eq_neg_one_of_neg negative]
    · simp
    · simp [Int.sign_eq_one_of_pos positive]
  · have split : (n : ℚ) = n.sign * (n.natAbs : Int) := by
      exact_mod_cast (Int.sign_mul_natAbs n).symm
    rw [← exact, split, mul_div_assoc, Int.cast_natCast]
  · rw [value, roundFrom?_eq_some found.symm]
    push_cast
    ring

theorem near (rounds : Rounds q (some y)) : |y.value - q| ≤ 1 / (2 * 10 ^ y.scale) := by
  obtain ⟨s, m, d, r, positive, unit, rfl, value, rfl⟩ := rounds.parts
  obtain ⟨above, below⟩ := roundHalfEven_near (m * 10 ^ y.scale) positive
  generalize roundHalfEven (m * 10 ^ y.scale) d = r at *
  have ten : (0 : ℚ) < 10 ^ y.scale := by positivity
  have divisor : (0 : ℚ) < d := by exact_mod_cast positive
  have above' : (2 * (m * 10 ^ y.scale) : ℚ) ≤ 2 * (r * d) + d := by exact_mod_cast above
  have below' : (2 * (r * d) : ℚ) ≤ 2 * (m * 10 ^ y.scale) + d := by exact_mod_cast below
  have distance : |(r * d - 10 ^ y.scale * m : ℚ)| ≤ d / 2 := by
    rw [abs_le]
    constructor <;> linarith
  calc |y.value - s * (m / d)| = |s| * |(r / 10 ^ y.scale - m / d : ℚ)| := by
        rw [value, ← mul_sub, abs_mul]
    _ ≤ 1 * |(r / 10 ^ y.scale - m / d : ℚ)| := by gcongr
    _ = |(r * d - 10 ^ y.scale * m : ℚ)| / (10 ^ y.scale * d) := by
        rw [one_mul, div_sub_div _ _ ten.ne' divisor.ne', abs_div, abs_of_pos (mul_pos ten divisor)]
    _ ≤ d / 2 / (10 ^ y.scale * d) := by gcongr
    _ = 1 / (2 * 10 ^ y.scale) := by field_simp

/-- A number that needs no more digits than its result has is not changed. -/
theorem value_eq {k : Int} (rounds : Rounds q (some y)) (digits : q * 10 ^ y.scale = k) :
    y.value = q := by
  have ten : (0 : ℚ) < 10 ^ y.scale := by positivity
  -- On the scale of the result both are integers, and rounding has moved one less than a unit.
  have same : y.coefficient = k := by
    have distance : |((y.coefficient - k : Int) : ℚ)| < 1 := by
      calc |((y.coefficient - k : Int) : ℚ)| = |y.value - q| * 10 ^ y.scale := by
            rw [Int.cast_sub, ← digits, ← div_mul_cancel₀ (y.coefficient : ℚ) ten.ne', ← sub_mul,
              abs_mul, abs_of_pos ten, value]
        _ ≤ 1 / (2 * 10 ^ y.scale) * 10 ^ y.scale := by gcongr; exact rounds.near
        _ = 1 / 2 := by field_simp
        _ < 1 := by norm_num
    rw [← Int.cast_abs] at distance
    have equal := Int.abs_lt_one_iff.mp (by exact_mod_cast distance)
    omega
  rw [value, same, ← digits, mul_div_cancel_right₀ _ ten.ne']

theorem value_eq_intCast {k : Int} (rounds : Rounds k (some y)) : y.value = k :=
  rounds.value_eq (k := k * 10 ^ y.scale) (by push_cast; rfl)

/-- Rounding keeps the sign, though it may give zero. -/
theorem mul_nonneg {b : ℚ} (rounds : Rounds q (some y)) (sign : 0 ≤ q * b) : 0 ≤ y.value * b := by
  obtain ⟨s, m, d, r, divisor, -, rfl, value, rfl⟩ := rounds.parts
  rcases Nat.eq_zero_or_pos m with rfl | positive
  · have zero : roundHalfEven (0 * 10 ^ y.scale) d = 0 :=
      Nat.le_zero.mp (roundHalfEven_le divisor (by simp))
    rw [value, zero]
    simp
  · have quotient : (0 : ℚ) < m / d := by positivity
    rw [mul_right_comm] at sign
    have sign := nonneg_of_mul_nonneg_left sign quotient
    rw [value, mul_right_comm]
    positivity

/-- A number no larger than a decimal is in range, and rounding does not take it beyond that. -/
theorem exists_of_le (rounds : Rounds q x?) (bound : |q| ≤ |z.value|) :
    ∃ y, x? = some y ∧ z.scale ≤ y.scale ∧ |y.value| ≤ |z.value| := by
  obtain ⟨n, d, positive, rfl, rfl⟩ := rounds
  have divisor : (0 : ℚ) < d := by exact_mod_cast positive
  have numerator : n.natAbs * 10 ^ z.scale ≤ z.coefficient.natAbs * d := by
    rw [abs_value, abs_div, Nat.abs_cast, ← Int.cast_abs, ← Nat.cast_natAbs,
      div_le_div_iff₀ divisor (by positivity)] at bound
    exact_mod_cast bound
  -- The quotient fits on the scale of `z`, so the result is on this scale or a finer one.
  have small := (roundHalfEven_le positive numerator).trans_lt z.coefficient_lt
  obtain ⟨y, found, finer⟩ := exists_roundFrom? small z.scale_le le_rfl
  refine ⟨y, found, finer, ?_⟩
  obtain ⟨more, own⟩ := Nat.exists_eq_add_of_le finer
  have scaled : n.natAbs * 10 ^ y.scale ≤ z.coefficient.natAbs * 10 ^ more * d := by
    calc n.natAbs * 10 ^ y.scale = n.natAbs * 10 ^ z.scale * 10 ^ more := by
          rw [own, pow_add, Nat.mul_assoc]
      _ ≤ z.coefficient.natAbs * d * 10 ^ more := Nat.mul_le_mul_right _ numerator
      _ = z.coefficient.natAbs * 10 ^ more * d := Nat.mul_right_comm ..
  refine abs_value_le own ?_
  rw [roundFrom?_eq_some found]
  exact (natAbs_sign_mul_le ..).trans (roundHalfEven_le positive scaled)

/-- A decimal's number is not rounded. -/
theorem exact (rounds : Rounds q x?) (representable : Representable q) :
    ∃ y, x? = some y ∧ y.value = q := by
  obtain ⟨z, rfl⟩ := representable
  obtain ⟨y, rfl, finer, -⟩ := rounds.exists_of_le (z := z) le_rfl
  obtain ⟨more, own⟩ := Nat.exists_eq_add_of_le finer
  refine ⟨y, rfl, rounds.value_eq (k := z.coefficient * 10 ^ more) ?_⟩
  rw [value, own, pow_add]
  push_cast
  field_simp

end Rounds

/-! ### Operations -/

theorem coefficientAt_div (below : a.scale ≤ scale) :
    (a.coefficientAt scale : ℚ) / 10 ^ scale = a.value := by
  obtain ⟨more, rfl⟩ := Nat.exists_eq_add_of_le below
  rw [coefficientAt, value, Nat.add_sub_cancel_left, pow_add]
  push_cast
  rw [cast_tenPow]
  field_simp

theorem add?_rounds (a b : Decimal) : Rounds (a.value + b.value) (add? a b) := by
  refine ⟨_, _, tenPow_pos _, ?_, rfl⟩
  rw [cast_tenPow, Int.cast_add, add_div, coefficientAt_div (le_max_left ..),
    coefficientAt_div (le_max_right ..)]

theorem sub?_rounds (a b : Decimal) : Rounds (a.value - b.value) (sub? a b) := by
  refine ⟨_, _, tenPow_pos _, ?_, rfl⟩
  rw [cast_tenPow, Int.cast_sub, sub_div, coefficientAt_div (le_max_left ..),
    coefficientAt_div (le_max_right ..)]

theorem mul?_rounds (a b : Decimal) : Rounds (a.value * b.value) (mul? a b) := by
  refine ⟨_, _, tenPow_pos _, ?_, rfl⟩
  rw [cast_tenPow, Int.cast_mul, pow_add, value, value, div_mul_div_comm]

theorem div?_rounds (a : Decimal) (nonzero : b.value ≠ 0) :
    Rounds (a.value / b.value) (div? a b) := by
  have divisor : b.coefficient ≠ 0 := mt value_eq_zero_iff.mpr nonzero
  refine ⟨_, _, Nat.mul_pos (Int.natAbs_pos.mpr divisor) (tenPow_pos a.scale), ?_, rfl⟩
  have divided : (b.coefficient.sign / b.coefficient.natAbs : ℚ) = 1 / b.coefficient := by
    rcases lt_or_gt_of_ne divisor with negative | positive
    · rw [Int.sign_eq_neg_one_of_neg negative, Nat.cast_natAbs, abs_of_neg negative]
      push_cast
      rw [neg_div_neg_eq]
    · rw [Int.sign_eq_one_of_pos positive, Nat.cast_natAbs, abs_of_pos positive, Int.cast_one]
  calc ((a.coefficient * tenPow b.scale * b.coefficient.sign : Int) : ℚ) /
        (b.coefficient.natAbs * tenPow a.scale : Nat)
      = a.coefficient * 10 ^ b.scale / 10 ^ a.scale *
          (b.coefficient.sign / b.coefficient.natAbs) := by
        push_cast
        rw [cast_tenPow, cast_tenPow, mul_comm (b.coefficient.natAbs : ℚ), mul_div_mul_comm]
    _ = a.value / b.value := by
        rw [divided, value, value]
        field_simp

end Reshape.Decimal
