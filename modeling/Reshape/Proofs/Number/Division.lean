import Mathlib.Algebra.Order.Field.Rat
import Mathlib.Data.Rat.Floor
import Mathlib.Tactic.Linarith
import Mathlib.Tactic.Ring

/-!
Division with the quotient rounded down, and how it comes from the division toward zero.
-/

namespace Reshape

/-- The law of division: the quotient is rounded down, and the remainder has the divisor's sign. -/
structure FloorDivision (a b q r : ℚ) : Prop where
  quotient : q = ⌊a / b⌋
  sign : r = 0 ∨ 0 < r * b
  small : |r| < |b|
  exact : a = b * q + r

/-- The remainder that belongs to the quotient rounded down. -/
def floorRemainder (a b : ℚ) : ℚ := a - b * ⌊a / b⌋

section Rational

variable {a b r : ℚ}

theorem floorRemainder_eq_mul_fract (a : ℚ) (nonzero : b ≠ 0) :
    floorRemainder a b = b * Int.fract (a / b) := by
  rw [floorRemainder, Int.fract, mul_sub, mul_div_cancel₀ _ nonzero]

theorem floorRemainder_mul_nonneg (a : ℚ) (nonzero : b ≠ 0) : 0 ≤ floorRemainder a b * b := by
  rw [floorRemainder_eq_mul_fract a nonzero, mul_right_comm]
  exact mul_nonneg (mul_self_nonneg b) (Int.fract_nonneg _)

theorem abs_floorRemainder_lt (a : ℚ) (nonzero : b ≠ 0) : |floorRemainder a b| < |b| := by
  rw [floorRemainder_eq_mul_fract a nonzero, abs_mul, Int.abs_fract]
  exact mul_lt_of_lt_one_right (abs_pos.mpr nonzero) (Int.fract_lt_one _)

/-- The remainder of any division is this one, if it has the divisor's sign and is smaller. -/
theorem eq_floorRemainder {k : Int} (nonzero : b ≠ 0) (exact : a = b * k + r) (sign : 0 ≤ r * b)
    (small : |r| < |b|) : r = floorRemainder a b := by
  have part : a / b = k + r / b := by
    rw [exact, add_div, mul_div_cancel_left₀ _ nonzero]
  have nonnegative : 0 ≤ r / b := by
    rw [← mul_div_mul_right r b nonzero]
    exact div_nonneg sign (mul_self_nonneg b)
  have below : r / b < 1 := by
    rw [← abs_of_nonneg nonnegative, abs_div]
    exact (div_lt_one (abs_pos.mpr nonzero)).mpr small
  have quotient : ⌊a / b⌋ = k := by
    rw [part, Int.floor_eq_iff]
    constructor <;> linarith
  rw [floorRemainder, quotient, exact]
  ring

/-- A remainder of the wrong sign gets the right one from the divisor. -/
theorem add_divisor_of_neg (wrong : r * b < 0) (small : |r| < |b|) :
    0 ≤ (r + b) * b ∧ |r + b| < |b| := by
  rcases mul_neg_iff.mp wrong with ⟨above, negative⟩ | ⟨below, positive⟩
  · rw [abs_of_pos above, abs_of_neg negative] at small
    rw [abs_of_neg negative, abs_of_nonpos (by linarith)]
    exact ⟨mul_nonneg_of_nonpos_of_nonpos (by linarith) negative.le, by linarith⟩
  · rw [abs_of_neg below, abs_of_pos positive] at small
    rw [abs_of_pos positive, abs_of_nonneg (by linarith)]
    exact ⟨mul_nonneg (by linarith) positive.le, by linarith⟩

theorem floorDivision_iff {q : ℚ} (nonzero : b ≠ 0) :
    FloorDivision a b q r ↔ q = ⌊a / b⌋ ∧ r = floorRemainder a b := by
  constructor
  · intro law
    have quotient := law.quotient
    refine ⟨quotient, ?_⟩
    rw [floorRemainder, ← quotient]
    linarith [law.exact]
  · rintro ⟨rfl, rfl⟩
    refine ⟨rfl, ?_, abs_floorRemainder_lt a nonzero, by rw [floorRemainder]; ring⟩
    rcases (floorRemainder_mul_nonneg a nonzero).eq_or_lt' with zero | positive
    · exact .inl ((mul_eq_zero.mp zero).resolve_right nonzero)
    · exact .inr positive

theorem truncated (m : Int) {n : Int} (nonzero : n ≠ 0) :
    (m : ℚ) = n * (m.tdiv n : Int) + (m.tmod n : Int) ∧ |((m.tmod n : Int) : ℚ)| < |(n : ℚ)| := by
  refine ⟨by exact_mod_cast (Int.mul_tdiv_add_tmod m n).symm, ?_⟩
  have below : (m.tmod n).natAbs < n.natAbs := by
    rw [Int.natAbs_tmod]
    exact Nat.mod_lt _ (Int.natAbs_pos.mpr nonzero)
  rw [← Int.cast_abs, ← Int.cast_abs, ← Int.natCast_natAbs, ← Int.natCast_natAbs]
  exact_mod_cast below

/-- The law for a quotient rounded toward zero, whose remainder may have the wrong sign. -/
theorem floorDivision_of_truncated {k : Int} (nonzero : b ≠ 0) (exact : a = b * k + r)
    (small : |r| < |b|) :
    (0 ≤ r * b → FloorDivision a b k r) ∧
      (r * b < 0 → FloorDivision a b (k - 1 : Int) (r + b)) := by
  have law : ∀ {k : Int} {r : ℚ}, a = b * k + r → 0 ≤ r * b → |r| < |b| →
      FloorDivision a b k r := by
    intro k r exact sign small
    have same := eq_floorRemainder nonzero exact sign small
    refine (floorDivision_iff nonzero).mpr ⟨?_, same⟩
    rw [floorRemainder] at same
    exact mul_left_cancel₀ nonzero (by linarith)
  refine ⟨fun right => law exact right small, fun wrong => ?_⟩
  obtain ⟨sign, size⟩ := add_divisor_of_neg wrong small
  refine law ?_ sign size
  rw [exact]
  push_cast
  ring

end Rational

end Reshape
