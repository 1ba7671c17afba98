import Mathlib.Algebra.Order.Field.Basic
import Mathlib.Algebra.Order.Field.Power
import Mathlib.Algebra.Order.Field.Rat
import Mathlib.Tactic.FieldSimp
import Mathlib.Tactic.Linarith
import Mathlib.Tactic.NormNum
import Mathlib.Tactic.Positivity
import Mathlib.Tactic.Ring
import Reshape.Number.Binary64.Arithmetic
import Reshape.Proofs.Number.Rounding

/-!
Floats as rational numbers. A quotient is rounded to the finite float nearest to it, of two equally
near ones to the one with an even significand, and from halfway between the largest float and the
next power of two on to infinity.
-/

namespace Reshape.Binary64

variable {x y : Binary64} {q v : ℚ} {n d k m : Nat} {e : Int}

/-- The number that a finite float denotes. -/
def value : Binary64 → ℚ
  | finite negative m e => (if negative then -1 else 1) * (m * 2 ^ e)
  | _ => 0

/-- A significand and an exponent in the one form that each number has: the exponent is the least
one unless the leading bit is set. -/
structure Fits (m : Nat) (e : Int) : Prop where
  small : m < 2 ^ 53
  least : -1074 ≤ e
  greatest : e ≤ 971
  leading : e = -1074 ∨ 2 ^ 52 ≤ m

def IsRegular : Binary64 → Prop
  | finite _ m e => Fits m e
  | _ => False

def IsEven : Binary64 → Prop
  | finite _ m _ => Even m
  | _ => False

/-- The least number that is too large for a finite float. -/
def overflow : ℚ := (2 ^ 54 - 1) * 2 ^ (970 : Int)

/-- `x` is the finite float nearest to `q`, of two equally near ones the even one. -/
structure Nearest (q : ℚ) (x : Binary64) : Prop where
  inRange : |q| < overflow
  regular : x.IsRegular
  near : ∀ y : Binary64, y.IsRegular → |q - x.value| ≤ |q - y.value|
  even : ∀ y : Binary64, y.IsRegular → y.value ≠ x.value → |q - y.value| = |q - x.value| → x.IsEven
  /-- At most half the least float away, or half a unit of a significand of 53 bits. -/
  close : |q - x.value| ≤ 2 ^ (-1075 : Int) ∨ 2 ^ 53 * |q - x.value| ≤ |q|

/-! ### Signs -/

theorem value_neg (x : Binary64) : x.neg.value = -x.value := by
  rcases x with _ | _ | ⟨_ | _, m, e⟩ <;> simp [neg, value]

theorem isRegular_neg : x.neg.IsRegular ↔ x.IsRegular := by cases x <;> rfl

theorem isEven_neg : x.neg.IsEven ↔ x.IsEven := by cases x <;> rfl

theorem abs_neg_sub_value (q : ℚ) (y : Binary64) : |-q - y.value| = |q - y.neg.value| := by
  rw [value_neg, ← abs_neg]
  ring_nf

theorem Nearest.neg (nearest : Nearest q x) : Nearest (-q) x.neg where
  inRange := (abs_neg q).trans_lt nearest.inRange
  regular := isRegular_neg.mpr nearest.regular
  near y regular := by
    rw [value_neg, ← neg_sub', abs_neg, abs_neg_sub_value]
    exact nearest.near y.neg (isRegular_neg.mpr regular)
  even y regular other tie := by
    rw [value_neg, ← neg_sub', abs_neg, abs_neg_sub_value] at tie
    rw [value_neg] at other
    refine isEven_neg.mpr (nearest.even y.neg (isRegular_neg.mpr regular) ?_ tie)
    rw [value_neg]
    exact fun same => other (by rw [← same, neg_neg])
  close := by
    rw [value_neg, ← neg_sub', abs_neg, abs_neg]
    exact nearest.close

/-! ### The grid of a unit -/

theorem abs_value_finite (negative : Bool) (m : Nat) (e : Int) :
    |value (finite negative m e)| = m * 2 ^ e := by
  rw [value, abs_mul, abs_of_nonneg (show (0 : ℚ) ≤ m * 2 ^ e by positivity)]
  split <;> simp

/-- A float is a multiple of the unit or lies below all quotients that have this unit. -/
theorem exists_multiple (regular : y.IsRegular) (e : Int) :
    (∃ j : Int, y.value = j * 2 ^ e) ∨ e ≠ -1074 ∧ |y.value| < 2 ^ 52 * 2 ^ e := by
  rcases y with _ | _ | ⟨negative, m, f⟩
  · cases regular
  · cases regular
  rcases le_or_gt e f with coarse | fine
  · obtain ⟨more, rfl⟩ := Int.le.dest coarse
    refine .inl ⟨(if negative then -1 else 1) * (m * 2 ^ more), ?_⟩
    rw [value, zpow_add₀ two_ne_zero, zpow_natCast]
    split <;> push_cast <;> ring
  · refine .inr ⟨?_, ?_⟩
    · have := regular.least
      omega
    · have small : (m : ℚ) < 2 ^ 53 := by exact_mod_cast regular.small
      calc |value (finite negative m f)| = m * 2 ^ f := abs_value_finite negative m f
        _ < 2 ^ 53 * 2 ^ f := by gcongr
        _ = 2 ^ 52 * 2 ^ (f + 1) := by rw [zpow_add_one₀ two_ne_zero]; ring
        _ ≤ 2 ^ 52 * 2 ^ e := by gcongr <;> [norm_num; omega]

theorem near_multiple (half : |v - k * 2 ^ e| ≤ 2 ^ e / 2) {j : Int} (other : j ≠ k) :
    |v - k * 2 ^ e| < |v - j * 2 ^ e| ∨
      |v - k * 2 ^ e| = 2 ^ e / 2 ∧ |v - j * 2 ^ e| = 2 ^ e / 2 := by
  have unit : (0 : ℚ) < 2 ^ e := by positivity
  have apart : (1 : ℚ) ≤ |((j - k : Int) : ℚ)| := by
    exact_mod_cast Int.one_le_abs (sub_ne_zero.mpr other)
  have distance : (2 : ℚ) ^ e ≤ |v - k * 2 ^ e| + |v - j * 2 ^ e| := by
    calc (2 : ℚ) ^ e ≤ |((j - k : Int) : ℚ)| * 2 ^ e := le_mul_of_one_le_left unit.le apart
      _ = |(v - k * 2 ^ e) - (v - j * 2 ^ e)| := by
        rw [← abs_of_pos unit, ← abs_mul, abs_of_pos unit]
        push_cast
        ring_nf
      _ ≤ |v - k * 2 ^ e| + |v - j * 2 ^ e| := abs_sub _ _
  rcases half.lt_or_eq with near | middle
  · exact .inl (by linarith)
  · rcases lt_or_ge (2 ^ e / 2) |v - j * 2 ^ e| with far | same
    · exact .inl (by linarith)
    · exact .inr ⟨middle, by linarith⟩

/-- The multiple of the unit that is at most half a unit away is nearest. -/
theorem near_of_units (half : |v - k * 2 ^ e| ≤ 2 ^ e / 2)
    (leading : e = -1074 ∨ 2 ^ 52 * 2 ^ e ≤ v) (regular : y.IsRegular)
    (other : y.value ≠ k * 2 ^ e) :
    |v - k * 2 ^ e| < |v - y.value| ∨
      |v - k * 2 ^ e| = 2 ^ e / 2 ∧ |v - y.value| = 2 ^ e / 2 := by
  rcases exists_multiple regular e with ⟨j, multiple⟩ | ⟨unit, below⟩
  · rw [multiple] at other ⊢
    refine near_multiple half fun same => other ?_
    rw [same, Int.cast_natCast]
  -- The least multiple with the leading bit lies between the float and the quotient.
  · have above := leading.resolve_left unit
    have upper := lt_of_abs_lt below
    have closest : |v - k * 2 ^ e| ≤ |v - (2 ^ 52 : Int) * 2 ^ e| := by
      by_cases least : (2 ^ 52 : Int) = k
      · rw [least, Int.cast_natCast]
      · rcases near_multiple half least with near | ⟨middle, same⟩
        · exact near.le
        · rw [middle, same]
    refine .inl (closest.trans_lt ?_)
    push_cast
    rw [abs_of_nonneg (by linarith), abs_of_pos (by linarith)]
    linarith

/-! ### Rounding -/

theorem unitsOf_spec (n : Nat) (positive : 0 < d) (e : Int) :
    0 < (unitsOf n d e).2 ∧ ((unitsOf n d e).1 / (unitsOf n d e).2 : ℚ) = n / d / 2 ^ e := by
  have two : ∀ i : Nat, ((twoPow i : Nat) : ℚ) = 2 ^ i := fun i => Nat.cast_pow 2 i
  rw [unitsOf]
  split
  · next up =>
    refine ⟨Nat.mul_pos positive (Nat.pow_pos (by decide)), ?_⟩
    obtain ⟨i, rfl⟩ := Int.eq_ofNat_of_zero_le up
    rw [Int.toNat_natCast, Nat.cast_mul, two, zpow_natCast, div_div]
  · next down =>
    refine ⟨positive, ?_⟩
    obtain ⟨i, rfl⟩ := Int.exists_eq_neg_ofNat (not_le.mp down).le
    rw [neg_neg, Int.toNat_natCast, Nat.cast_mul, two, zpow_neg, zpow_natCast, div_inv_eq_mul,
      div_mul_eq_mul_div]

theorem pow_mul_zpow (i : Nat) (e : Int) : (2 : ℚ) ^ i * 2 ^ e = 2 ^ (e + i) := by
  rw [zpow_add₀ two_ne_zero, zpow_natCast, mul_comm]

theorem log2_bounds (positive : 0 < n) (positive' : 0 < d) :
    (2 : ℚ) ^ ((n.log2 : Int) - d.log2 - 1) ≤ n / d ∧
      (n / d : ℚ) < 2 ^ ((n.log2 : Int) - d.log2 + 1) := by
  have lower : (2 : ℚ) ^ n.log2 ≤ n := by exact_mod_cast Nat.log2_self_le positive.ne'
  have upper : (n : ℚ) < 2 ^ (n.log2 + 1) := by exact_mod_cast Nat.lt_log2_self
  have lower' : (2 : ℚ) ^ d.log2 ≤ d := by exact_mod_cast Nat.log2_self_le positive'.ne'
  have upper' : (d : ℚ) < 2 ^ (d.log2 + 1) := by exact_mod_cast Nat.lt_log2_self
  have divisor : (0 : ℚ) < d := by exact_mod_cast positive'
  constructor
  · calc (2 : ℚ) ^ ((n.log2 : Int) - d.log2 - 1) = 2 ^ n.log2 / 2 ^ (d.log2 + 1) := by
          rw [sub_sub, zpow_sub₀ two_ne_zero, zpow_natCast]
          exact_mod_cast rfl
      _ ≤ n / d := by gcongr
  · calc (n / d : ℚ) < 2 ^ (n.log2 + 1) / 2 ^ d.log2 := by gcongr
      _ = 2 ^ ((n.log2 : Int) - d.log2 + 1) := by
          rw [sub_add_eq_add_sub, zpow_sub₀ two_ne_zero, zpow_natCast]
          exact_mod_cast rfl

/-- The quotient has 53 bits before the point, or fewer at the least exponent. -/
theorem exponentFor_spec (positive : 0 < n) (positive' : 0 < d) :
    -1074 ≤ exponentFor n d ∧ (n / d : ℚ) < 2 ^ 53 * 2 ^ exponentFor n d ∧
      (exponentFor n d = -1074 ∨ 2 ^ 52 * 2 ^ exponentFor n d ≤ (n / d : ℚ)) := by
  obtain ⟨lower, upper⟩ := log2_bounds positive positive'
  simp only [exponentFor]
  generalize first : max (-1074) ((n.log2 : Int) - d.log2 - 53) = e
  obtain ⟨divisor, units⟩ := unitsOf_spec n positive' e
  have unit : (0 : ℚ) < 2 ^ e := by positivity
  have wide : 2 * leadingBit ≤ (unitsOf n d e).1 / (unitsOf n d e).2 ↔
      2 ^ 53 * 2 ^ e ≤ (n / d : ℚ) := by
    rw [← le_div_iff₀ unit, ← units, le_div_iff₀ (by exact_mod_cast divisor),
      Nat.le_div_iff_mul_le divisor]
    exact_mod_cast Iff.rfl
  split
  · next more =>
    rw [wide] at more
    refine ⟨by omega, upper.trans_le ?_, .inr (more.trans' ?_)⟩
    · rw [pow_mul_zpow]
      exact zpow_le_zpow_right₀ one_le_two (by omega)
    · rw [pow_mul_zpow, pow_mul_zpow]
      exact zpow_le_zpow_right₀ one_le_two (by omega)
  · next enough =>
    rw [wide, not_le] at enough
    refine ⟨by omega, enough, ?_⟩
    rcases (show e = -1074 ∨ e = n.log2 - d.log2 - 53 by omega) with least | own
    · exact .inl least
    · refine .inr (lower.trans' ?_)
      rw [pow_mul_zpow]
      exact zpow_le_zpow_right₀ one_le_two (by omega)

theorem abs_sub_roundHalfEven (n : Nat) (positive : 0 < d) :
    |(n / d : ℚ) - roundHalfEven n d| ≤ 1 / 2 ∧
      (|(n / d : ℚ) - roundHalfEven n d| = 1 / 2 → Even (roundHalfEven n d)) := by
  have divisor : (0 : ℚ) < d := by exact_mod_cast positive
  have distance : |(n / d : ℚ) - roundHalfEven n d| = |(n - d * roundHalfEven n d : ℚ)| / d := by
    rw [div_sub' divisor.ne', abs_div, abs_of_pos divisor]
  rw [distance]
  constructor
  · obtain ⟨above, below⟩ := roundHalfEven_near n positive
    have above' : (2 * n : ℚ) ≤ 2 * (roundHalfEven n d * d) + d := by exact_mod_cast above
    have below' : (2 * (roundHalfEven n d * d) : ℚ) ≤ 2 * n + d := by exact_mod_cast below
    rw [div_le_iff₀ divisor, abs_le]
    constructor <;> linarith
  · intro half
    rw [div_eq_iff divisor.ne', abs_eq (by positivity)] at half
    refine even_roundHalfEven positive (half.imp (fun above => ?_) fun below => ?_)
    · exact_mod_cast (show (2 * n : ℚ) = 2 * (roundHalfEven n d * d) + d by linarith)
    · exact_mod_cast (show (2 * n + d : ℚ) = 2 * (roundHalfEven n d * d) by linarith)

/-- The rounded quotient in units is at most half a unit away. -/
theorem abs_sub_units (n : Nat) (positive : 0 < d) (e : Int)
    (rounded : roundHalfEven (unitsOf n d e).1 (unitsOf n d e).2 = k) :
    |(n / d : ℚ) - k * 2 ^ e| ≤ 2 ^ e / 2 ∧
      (|(n / d : ℚ) - k * 2 ^ e| = 2 ^ e / 2 → Even k) := by
  obtain ⟨divisor, units⟩ := unitsOf_spec n positive e
  obtain ⟨near, even⟩ := abs_sub_roundHalfEven (unitsOf n d e).1 divisor
  have unit : (0 : ℚ) < 2 ^ e := by positivity
  rw [rounded, units] at near even
  have distance : |(n / d : ℚ) - k * 2 ^ e| = |(n / d / 2 ^ e : ℚ) - k| * 2 ^ e := by
    rw [← abs_of_pos unit, ← abs_mul, abs_of_pos unit, sub_mul, div_mul_cancel₀ _ unit.ne']
  rw [distance]
  constructor
  · calc |(n / d / 2 ^ e : ℚ) - k| * 2 ^ e ≤ 1 / 2 * 2 ^ e := by gcongr
      _ = 2 ^ e / 2 := by ring
  · intro half
    refine even (mul_right_cancel₀ unit.ne' (half.trans ?_))
    ring

theorem half_least : (2 : ℚ) ^ (-1074 : Int) / 2 = 2 ^ (-1075 : Int) := by
  rw [show (-1075 : Int) = -1074 - 1 from rfl, zpow_sub_one₀ two_ne_zero, div_eq_mul_inv]

/-- The nearest multiple of the unit as a float, if that is in range. -/
theorem nearest_of_units (half : |v - k * 2 ^ e| ≤ 2 ^ e / 2)
    (tie : |v - k * 2 ^ e| = 2 ^ e / 2 → Even k) (leading : e = -1074 ∨ 2 ^ 52 * 2 ^ e ≤ v)
    (inRange : |v| < overflow) (regular : x.IsRegular) (same : x.value = k * 2 ^ e)
    (even : Even k → x.IsEven) : Nearest v x where
  inRange := inRange
  regular := regular
  near y regular := by
    rw [same]
    by_cases other : y.value = k * 2 ^ e
    · rw [other]
    · rcases near_of_units half leading regular other with near | ⟨middle, middle'⟩
      · exact near.le
      · rw [middle, middle']
  even y regular other equal := by
    rw [same] at other equal
    rcases near_of_units half leading regular other with near | ⟨middle, -⟩
    · exact absurd equal near.ne'
    · exact even (tie middle)
  close := by
    rw [same]
    rcases leading with least | above
    · rw [least, half_least] at half
      exact .inl (least ▸ half)
    · refine .inr ?_
      calc 2 ^ 53 * |v - k * 2 ^ e| ≤ 2 ^ 53 * (2 ^ e / 2) := by gcongr
        _ = 2 ^ 52 * 2 ^ e := by ring
        _ ≤ |v| := above.trans (le_abs_self v)

/-- The bound of the range between the exponents 970 and 972. -/
theorem overflow_spec : ∃ b : ℚ, 0 < b ∧ overflow = (2 ^ 54 - 1) * b ∧
    (e ≤ 970 → (2 : ℚ) ^ e ≤ b) ∧ (e = 971 → (2 : ℚ) ^ e = 2 * b) ∧ (972 ≤ e → 4 * b ≤ 2 ^ e) := by
  refine ⟨2 ^ (970 : Int), by positivity, rfl, ?_, ?_, ?_⟩
  · exact zpow_le_zpow_right₀ one_le_two
  · rintro rfl
    rw [show (971 : Int) = 970 + 1 from rfl, zpow_add_one₀ two_ne_zero, mul_comm]
  · intro large
    calc (4 * 2 ^ (970 : Int) : ℚ) = 2 ^ 2 * 2 ^ (970 : Int) := by norm_num only
      _ = 2 ^ (972 : Int) := pow_mul_zpow 2 970
      _ ≤ 2 ^ e := zpow_le_zpow_right₀ one_le_two large

/-- The bound is halfway to the power of two beyond the largest significand, which is odd. -/
theorem lt_overflow (half : |v - k * 2 ^ e| ≤ 2 ^ e / 2)
    (tie : |v - k * 2 ^ e| = 2 ^ e / 2 → Even k) (small : k < 2 ^ 53) (fits : e ≤ 971) :
    v < overflow := by
  obtain ⟨b, positive, bound, low, middle, -⟩ := overflow_spec (e := e)
  have unit : (0 : ℚ) < 2 ^ e := by positivity
  have most : (k : ℚ) ≤ 2 ^ 53 - 1 := le_sub_iff_add_le.mpr (by exact_mod_cast small)
  have size : (k * 2 ^ e : ℚ) ≤ (2 ^ 53 - 1) * 2 ^ e := by gcongr
  have near := (abs_le.mp half).2
  by_contra large
  rw [not_lt, bound] at large
  rcases (show e ≤ 970 ∨ e = 971 by omega) with lower | last
  · have low := low lower
    linarith
  · have middle := middle last
    have halfway : |v - k * 2 ^ e| = 2 ^ e / 2 := by
      rw [abs_of_nonneg (by linarith)]
      linarith
    have odd : (k : ℚ) = (2 ^ 53 - 1 : Nat) := by
      refine mul_right_cancel₀ unit.ne' ?_
      push_cast
      linarith
    have even := tie halfway
    rw [Nat.cast_inj] at odd
    rw [odd] at even
    exact absurd even (by decide)

theorem nearest_zero (negative : Bool) (tiny : |q| ≤ 2 ^ (-1075 : Int)) :
    Nearest q (zero negative) := by
  have none : ((0 : Nat) * 2 ^ (-1074 : Int) : ℚ) = 0 := by rw [Nat.cast_zero, zero_mul]
  have even : Even 0 := ⟨0, rfl⟩
  rw [← half_least] at tiny
  have half : |q - (0 : Nat) * 2 ^ (-1074 : Int)| ≤ 2 ^ (-1074 : Int) / 2 := by
    rwa [none, sub_zero]
  have half' : |(|q|) - (0 : Nat) * 2 ^ (-1074 : Int)| ≤ 2 ^ (-1074 : Int) / 2 := by
    rwa [none, sub_zero, abs_abs]
  have inRange := lt_overflow half' (fun _ => even) (by decide) (by decide)
  refine nearest_of_units half (fun _ => even) (.inl rfl) inRange ?_ ?_ fun _ => even
  · exact ⟨by decide, le_rfl, by decide, .inl rfl⟩
  · simp [zero, value]

/-- Rounding keeps the leading bit, and carries into the next one at most. -/
theorem units_size (half : |v - k * 2 ^ e| ≤ 2 ^ e / 2) (below : v < 2 ^ 53 * 2 ^ e)
    (leading : e = -1074 ∨ 2 ^ 52 * 2 ^ e ≤ v) : (e = -1074 ∨ 2 ^ 52 ≤ k) ∧ k ≤ 2 ^ 53 := by
  obtain ⟨near, near'⟩ := abs_le.mp half
  have unit : (0 : ℚ) < 2 ^ e := by positivity
  constructor
  · refine leading.imp_right fun above => Nat.lt_succ_iff.mp ?_
    have close : (2 ^ 52 : ℚ) < k + 1 := lt_of_mul_lt_mul_right (by linarith) unit.le
    exact_mod_cast close
  · have close : (k : ℚ) < 2 ^ 53 + 1 := lt_of_mul_lt_mul_right (by linarith) unit.le
    exact Nat.lt_succ_iff.mp (by exact_mod_cast close)

theorem overflow_le_of_leading (above : 2 ^ 52 * 2 ^ e ≤ v) (large : 971 < e) : overflow ≤ v := by
  obtain ⟨b, positive, bound, -, -, high⟩ := overflow_spec (e := e)
  have high := high (by omega)
  rw [bound]
  linarith

/-- A significand that carried is in range if the next exponent is. -/
theorem lt_overflow_iff_of_carry (half : |v - (2 ^ 53 : Nat) * 2 ^ e| ≤ 2 ^ e / 2)
    (below : v < 2 ^ 53 * 2 ^ e) : v < overflow ↔ e ≤ 970 := by
  obtain ⟨b, positive, bound, low, middle, high⟩ := overflow_spec (e := e)
  have near := (abs_le.mp half).1
  push_cast at near
  rw [bound]
  constructor
  · intro inRange
    by_contra large
    rcases (show e = 971 ∨ 972 ≤ e by omega) with last | more
    · have middle := middle last
      linarith
    · have high := high more
      linarith
  · intro fits
    have low := low fits
    linarith

/-- Rounding of a positive quotient. -/
theorem round_false (n : Nat) (positive : 0 < d) :
    Nearest (n / d) (round false n d) ∨
      overflow ≤ (n / d : ℚ) ∧ round false n d = infinite false := by
  rcases Nat.eq_zero_or_pos n with rfl | numerator
  · refine .inl ?_
    rw [Nat.cast_zero, zero_div]
    exact nearest_zero false (by rw [abs_zero]; positivity)
  obtain ⟨least, below, leading⟩ := exponentFor_spec numerator positive
  rw [round, if_neg numerator.ne']
  generalize exponentFor n d = e at *
  have nonnegative : |(n / d : ℚ)| = n / d := abs_of_nonneg (by positivity)
  simp only
  generalize rounded : roundHalfEven (unitsOf n d e).1 (unitsOf n d e).2 = k
  obtain ⟨half, tie⟩ := abs_sub_units n positive e rounded
  generalize (n / d : ℚ) = v at *
  obtain ⟨normal, most⟩ := units_size half below leading
  rw [show 2 * leadingBit = 2 ^ 53 from rfl]
  split
  · next small =>
    split
    · next large =>
      exact .inr ⟨overflow_le_of_leading (leading.resolve_left (by omega)) large, rfl⟩
    · next fits =>
      have inRange := lt_overflow half tie small (not_lt.mp fits)
      refine .inl (nearest_of_units half tie leading (nonnegative.trans_lt inRange) ?_ ?_ id)
      · exact ⟨small, least, not_lt.mp fits, normal⟩
      · simp [value]
  · next carry =>
    obtain rfl : k = 2 ^ 53 := le_antisymm most (not_lt.mp carry)
    have inRange := lt_overflow_iff_of_carry half below
    split
    · next large =>
      exact .inr ⟨not_lt.mp (mt inRange.mp (not_le.mpr large)), rfl⟩
    · next fits =>
      have inRange := nonnegative.trans_lt (inRange.mpr (not_lt.mp fits))
      refine .inl (nearest_of_units half tie leading inRange ?_ ?_ fun _ => ⟨2 ^ 51, rfl⟩)
      · exact ⟨by decide, by omega, by omega, .inr le_rfl⟩
      · rw [value, zpow_add_one₀ two_ne_zero, leadingBit]
        norm_num
        ring

theorem round_true (n d : Nat) : round true n d = (round false n d).neg := by
  simp only [round]
  split
  · rfl
  · repeat' split
    all_goals rfl

theorem round_spec (negative : Bool) (n : Nat) (positive : 0 < d)
    (exact : q = (if negative then -1 else 1) * (n / d)) :
    Nearest q (round negative n d) ∨ overflow ≤ |q| ∧ round negative n d = infinite negative := by
  have nonnegative : |(n / d : ℚ)| = n / d := abs_of_nonneg (by positivity)
  subst exact
  cases negative with
  | false =>
    rw [if_neg Bool.false_ne_true, one_mul, nonnegative]
    exact round_false n positive
  | true =>
    rw [if_pos rfl, neg_one_mul, abs_neg, nonnegative, round_true]
    rcases round_false n positive with nearest | ⟨large, infinite⟩
    · exact .inl nearest.neg
    · exact .inr ⟨large, by rw [infinite]; rfl⟩

end Reshape.Binary64
