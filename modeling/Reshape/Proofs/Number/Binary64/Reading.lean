import Reshape.Proofs.Number.Binary64.Nearest
import Reshape.Proofs.Number.Numeral

/-!
Numerals as floats. The float of a numeral is the one nearest to its value; so it is zero up to half
the least float, and not finite from the bound of the range on.
-/

namespace Reshape.Binary64

variable {x : Binary64} {q : ℚ} {places : Int}

/-! ### Numerals far from the point -/

theorem two_zpow_le_ten_zpow : (2 : ℚ) ^ (1200 : Int) ≤ 10 ^ (400 : Int) := by
  calc (2 : ℚ) ^ (1200 : Int) = (2 ^ (3 : Int)) ^ (400 : Int) := zpow_mul 2 3 400
    _ ≤ 10 ^ (400 : Int) := zpow_le_zpow_left₀ (by decide) (by positivity) (by norm_num only)

theorem overflow_le (far : 400 ≤ places) : overflow ≤ 10 ^ places := by
  calc overflow ≤ 2 ^ 54 * 2 ^ (970 : Int) := by
        rw [overflow]
        gcongr
        norm_num only
    _ = 2 ^ (1024 : Int) := pow_mul_zpow 54 970
    _ ≤ 2 ^ (1200 : Int) := zpow_le_zpow_right₀ one_le_two (by decide)
    _ ≤ 10 ^ (400 : Int) := two_zpow_le_ten_zpow
    _ ≤ 10 ^ places := zpow_le_zpow_right₀ (by norm_num only) far

theorem le_half_least (far : places ≤ -400) : (10 : ℚ) ^ places ≤ 2 ^ (-1075 : Int) := by
  calc (10 : ℚ) ^ places ≤ 10 ^ (-400 : Int) := zpow_le_zpow_right₀ (by norm_num only) far
    _ = (10 ^ (400 : Int))⁻¹ := zpow_neg 10 400
    _ ≤ (2 ^ (1200 : Int))⁻¹ := inv_anti₀ (by positivity) two_zpow_le_ten_zpow
    _ = 2 ^ (-1200 : Int) := (zpow_neg 2 1200).symm
    _ ≤ 2 ^ (-1075 : Int) := zpow_le_zpow_right₀ one_le_two (by decide)

/-- The count of places before the point bounds the value on both sides. -/
theorem abs_value_bounds {n : Numeral} (nonzero : n.coefficient ≠ 0) :
    |n.value| = n.coefficient * 10 ^ n.power ∧
      (10 : ℚ) ^ ((Digit.ofNat n.coefficient).length + n.power - 1) ≤ |n.value| ∧
      |n.value| ≤ 10 ^ ((Digit.ofNat n.coefficient).length + n.power) := by
  obtain ⟨count, length, lower, upper⟩ := Digit.exists_length_ofNat (Nat.pos_of_ne_zero nonzero)
  have lower' : (10 : ℚ) ^ count ≤ n.coefficient := by exact_mod_cast lower
  have upper' : (n.coefficient : ℚ) ≤ 10 ^ (count + 1) := by exact_mod_cast upper.le
  have magnitude : |n.value| = n.coefficient * 10 ^ n.power := by
    have power : (0 : ℚ) < 10 ^ n.power := by positivity
    rw [Numeral.value, abs_mul, abs_mul, Nat.abs_cast, abs_of_pos power]
    split <;> simp
  have ten : (10 : ℚ) ≠ 0 := by norm_num only
  rw [magnitude, length]
  refine ⟨rfl, ?_, ?_⟩
  · calc (10 : ℚ) ^ ((count + 1 : Nat) + n.power - 1 : Int) = 10 ^ count * 10 ^ n.power := by
          rw [← zpow_natCast, ← zpow_add₀ ten]
          congr 1
          omega
      _ ≤ n.coefficient * 10 ^ n.power := by gcongr
  · calc n.coefficient * (10 : ℚ) ^ n.power ≤ 10 ^ (count + 1) * 10 ^ n.power := by gcongr
      _ = 10 ^ ((count + 1 : Nat) + n.power : Int) := by rw [← zpow_natCast, ← zpow_add₀ ten]

/-! ### The float of a numeral -/

theorem nearest_ofNumeral (n : Numeral) :
    Nearest n.value (ofNumeral n) ∨
      overflow ≤ |n.value| ∧ ofNumeral n = infinite n.negative := by
  rw [ofNumeral]
  simp only
  by_cases zero : n.coefficient = 0
  · rw [if_pos zero]
    refine .inl (nearest_zero n.negative ?_)
    rw [Numeral.value, zero, Nat.cast_zero, mul_zero, zero_mul, abs_zero]
    positivity
  obtain ⟨magnitude, lower, upper⟩ := abs_value_bounds zero
  rw [if_neg zero]
  split
  · exact .inr ⟨(overflow_le (by omega)).trans lower, rfl⟩
  split
  · exact .inl (nearest_zero n.negative (upper.trans (le_half_least (by omega))))
  have ten : ∀ i : Nat, ((tenPow i : Nat) : ℚ) = 10 ^ i := fun i => Nat.cast_pow 10 i
  split
  · next whole =>
    obtain ⟨i, power⟩ := Int.eq_ofNat_of_zero_le whole
    refine round_spec n.negative _ Nat.one_pos ?_
    rw [Numeral.value, power, Int.toNat_natCast, Nat.cast_mul, ten, zpow_natCast, Nat.cast_one,
      div_one, mul_assoc]
  · next broken =>
    obtain ⟨i, power⟩ := Int.exists_eq_neg_ofNat (not_le.mp broken).le
    refine round_spec n.negative _ (Nat.pow_pos (by decide)) ?_
    rw [Numeral.value, power, neg_neg, Int.toNat_natCast, ten, zpow_neg, zpow_natCast, mul_assoc,
      div_eq_mul_inv]

/-! ### Zeros and infinities -/

theorem isFinite_of_isRegular (regular : x.IsRegular) : x.isFinite = true := by
  cases x with
  | finite => rfl
  | nan => cases regular
  | infinite => cases regular

theorem isRegular_least (negative : Bool) : (finite negative 1 (-1074)).IsRegular :=
  ⟨by decide, le_rfl, by decide, .inl rfl⟩

/-- Up to half the least float all is zero: at the half itself, zero is the even one of the two. -/
theorem Nearest.isZero_iff (nearest : Nearest q x) :
    x.isZero = true ↔ |q| ≤ 2 ^ (-1075 : Int) := by
  have positive : (0 : ℚ) < 2 ^ (-1074 : Int) := by positivity
  rw [← half_least]
  rcases x with _ | _ | ⟨negative, m, e⟩
  · cases nearest.regular
  · cases nearest.regular
  have zeroIff : (finite negative m e).isZero = true ↔ m = 0 := by cases m <;> simp [isZero]
  rw [zeroIff]
  constructor
  · rintro rfl
    have above := nearest.near _ (isRegular_least false)
    have below := nearest.near _ (isRegular_least true)
    simp only [value, Nat.cast_zero, zero_mul, mul_zero, sub_zero, Nat.cast_one, one_mul,
      Bool.false_eq_true, if_false, if_true, neg_one_mul, sub_neg_eq_add] at above below
    generalize (2 : ℚ) ^ (-1074 : Int) = least at *
    rcases abs_cases q with ⟨sign, -⟩ | ⟨sign, -⟩
    · rcases abs_cases (q - least) with ⟨side, -⟩ | ⟨side, -⟩ <;> linarith
    · rcases abs_cases (q + least) with ⟨side, -⟩ | ⟨side, -⟩ <;> linarith
  · intro tiny
    by_contra nonzero
    have size := abs_value_finite negative m e
    have regularZero : (zero false).IsRegular := (nearest_zero (q := 0) false (by simp)).regular
    have none : (zero false).value = 0 := by simp [zero, value]
    have toZero := nearest.near _ regularZero
    have triangle := abs_sub_abs_le_abs_sub (value (finite negative m e)) q
    rw [abs_sub_comm, size] at triangle
    rw [none, sub_zero] at toZero
    have unit : (2 : ℚ) ^ (-1074 : Int) ≤ 2 ^ e :=
      zpow_le_zpow_right₀ one_le_two nearest.regular.least
    have scaled : (m * 2 ^ (-1074 : Int) : ℚ) ≤ m * 2 ^ e := by gcongr
    have single : m ≤ 1 := by
      have bound : (m : ℚ) ≤ 1 := le_of_mul_le_mul_right (by linarith) positive
      exact_mod_cast bound
    obtain rfl : m = 1 := by omega
    rw [Nat.cast_one, one_mul] at triangle size scaled
    refine absurd (nearest.even _ regularZero ?_ ?_) (show ¬ Even 1 by decide)
    · intro same
      rw [← same, none, abs_zero] at size
      linarith
    · rw [none, sub_zero]
      linarith

/-- A numeral's float is finite and not zero between half the least float and the bound. -/
theorem isFinite_and_not_isZero_iff (n : Numeral) :
    ((ofNumeral n).isFinite && !(ofNumeral n).isZero) = true ↔
      2 ^ (-1075 : Int) < |n.value| ∧ |n.value| < overflow := by
  rcases nearest_ofNumeral n with nearest | ⟨large, infinite⟩
  · rw [isFinite_of_isRegular nearest.regular, Bool.true_and, Bool.not_eq_true',
      ← Bool.not_eq_true, nearest.isZero_iff, not_le]
    exact (and_iff_left nearest.inRange).symm
  · rw [infinite]
    exact iff_of_false Bool.false_ne_true fun inside => absurd inside.2 large.not_gt

/-- No integer is so small that its float is zero. -/
theorem isZero_ofInt {i : Int} (nonzero : i ≠ 0) : (ofInt i).isZero = false := by
  have exact : (i : ℚ) = (if decide (i < 0) then -1 else 1) * (i.natAbs / (1 : Nat)) := by
    rw [Nat.cast_natAbs, Nat.cast_one, div_one]
    rcases lt_or_ge i 0 with negative | positive
    · simp [negative, abs_of_neg negative]
    · simp [positive.not_gt, abs_of_nonneg positive]
  rcases round_spec (i < 0) i.natAbs Nat.one_pos exact with nearest | ⟨-, infinite⟩
  · rw [ofInt, ← Bool.not_eq_true, nearest.isZero_iff, not_le]
    calc (2 : ℚ) ^ (-1075 : Int) < 1 := zpow_lt_one_of_neg₀ one_lt_two (by decide)
      _ ≤ |(i : ℚ)| := by exact_mod_cast Int.one_le_abs nonzero
  · rw [ofInt, infinite]
    rfl

end Reshape.Binary64
