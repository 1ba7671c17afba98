import Mathlib.Algebra.Ring.Parity
import Mathlib.Tactic.Ring
import Reshape.Number.Rounding

/-!
How far rounding moves a quotient, and what it does not move it over.
-/

namespace Reshape

variable {n d m : Nat}

/-- The three ways of rounding, by the quotient `q` and the remainder `r`. -/
theorem roundHalfEven_cases (n : Nat) (positive : 0 < d) :
    ∃ q r, n = d * q + r ∧ r < d ∧
      (roundHalfEven n d = q ∧ 2 * r ≤ d ∨ roundHalfEven n d = q + 1 ∧ d ≤ 2 * r) := by
  refine ⟨n / d, n % d, (Nat.div_add_mod n d).symm, Nat.mod_lt n positive, ?_⟩
  rw [roundHalfEven]
  rcases lt_trichotomy (2 * (n % d)) d with below | half | above
  · simp [below, below.le]
  · have parity : n / d % 2 = 0 ∨ n / d % 2 = 1 := by omega
    rcases parity with isEven | isOdd
    · simp [half, isEven]
    · simp [half, isOdd]
  · simp [above, above.le, above.not_gt]

theorem roundHalfEven_le (positive : 0 < d) (bound : n ≤ m * d) : roundHalfEven n d ≤ m := by
  obtain ⟨q, r, rfl, small, ⟨down, -⟩ | ⟨up, above⟩⟩ := roundHalfEven_cases n positive
  · rw [down]
    by_contra larger
    have next : d * (m + 1) ≤ d * q := Nat.mul_le_mul_left d (by omega)
    rw [Nat.mul_add_one, Nat.mul_comm d m] at next
    omega
  · rw [up]
    by_contra larger
    have next : d * m ≤ d * q := Nat.mul_le_mul_left d (by omega)
    rw [Nat.mul_comm d m] at next
    omega

/-- The rounded quotient is at most a half away. -/
theorem roundHalfEven_near (n : Nat) (positive : 0 < d) :
    2 * n ≤ 2 * (roundHalfEven n d * d) + d ∧ 2 * (roundHalfEven n d * d) ≤ 2 * n + d := by
  obtain ⟨q, r, rfl, small, ⟨down, below⟩ | ⟨up, above⟩⟩ := roundHalfEven_cases n positive
  · rw [down, Nat.mul_comm q d]
    omega
  · rw [up, Nat.mul_comm (q + 1) d, Nat.mul_add_one]
    omega

/-- Halfway between two integers it is the even one. -/
theorem even_roundHalfEven (positive : 0 < d)
    (half : 2 * n = 2 * (roundHalfEven n d * d) + d ∨ 2 * n + d = 2 * (roundHalfEven n d * d)) :
    Even (roundHalfEven n d) := by
  have division := Nat.div_add_mod n d
  have small := Nat.mod_lt n positive
  rw [Nat.even_iff]
  rw [roundHalfEven] at half ⊢
  split
  · next below =>
    rw [if_pos below, Nat.mul_comm (n / d) d] at half
    omega
  · next above =>
    rw [if_neg above] at half
    split
    · next up =>
      rw [if_pos up, Nat.mul_comm (n / d + 1) d, Nat.mul_add_one] at half
      omega
    · omega

end Reshape
