import Mathlib.Data.Rat.Floor
import Reshape.Proofs.Number.Binary64.Nearest

/-!
Integers and floats. All integers up to `2 ^ 53` are floats, and all floats from `2 ^ 52` on are
integers. The nearest float has the integer part of the number itself if that has few digits.
-/

namespace Reshape

/-- The integer next to a number in the direction of zero. -/
def truncation (q : ℚ) : Int := if q < 0 then ⌈q⌉ else ⌊q⌋

theorem truncation_of_nonneg {q : ℚ} (nonnegative : 0 ≤ q) : truncation q = ⌊q⌋ :=
  if_neg nonnegative.not_gt

theorem truncation_neg (q : ℚ) : truncation (-q) = -truncation q := by
  rcases lt_trichotomy q 0 with negative | rfl | positive
  · rw [truncation_of_nonneg (neg_nonneg.mpr negative.le), truncation, if_pos negative,
      Int.floor_neg]
  · simp [truncation]
  · rw [truncation_of_nonneg positive.le, truncation, if_pos (neg_neg_iff_pos.mpr positive),
      Int.ceil_neg]

theorem truncation_intCast (i : Int) : truncation i = i := by
  simp [truncation]

theorem abs_truncation_le (q : ℚ) : (|truncation q| : ℚ) ≤ |q| := by
  wlog nonnegative : 0 ≤ q generalizing q
  · have opposite := this (-q) (by linarith)
    rwa [truncation_neg, Int.cast_neg, abs_neg, abs_neg] at opposite
  rw [truncation_of_nonneg nonnegative, abs_of_nonneg nonnegative,
    abs_of_nonneg (by exact_mod_cast Int.floor_nonneg.mpr nonnegative)]
  exact Int.floor_le q

namespace Binary64

variable {x : Binary64} {q : ℚ}

theorem truncate?_eq (regular : x.IsRegular) : x.truncate? = some (truncation x.value) := by
  rcases x with _ | _ | ⟨negative, m, e⟩
  · cases regular
  · cases regular
  have magnitude : ((if 0 ≤ e then m * twoPow e.toNat else m / twoPow (-e).toNat : Nat) : Int) =
      ⌊(m * 2 ^ e : ℚ)⌋ := by
    split
    · next up =>
      obtain ⟨i, rfl⟩ := Int.eq_ofNat_of_zero_le up
      have whole : (m * 2 ^ (i : Int) : ℚ) = (m * 2 ^ i : Nat) := by
        rw [zpow_natCast]
        push_cast
        rfl
      rw [whole, Int.toNat_natCast, Int.floor_natCast]
      rfl
    · next down =>
      obtain ⟨i, rfl⟩ := Int.exists_eq_neg_ofNat (not_le.mp down).le
      have quotient : (m * 2 ^ (-(i : Int)) : ℚ) = m / (2 ^ i : Nat) := by
        rw [zpow_neg, zpow_natCast, div_eq_mul_inv]
        push_cast
        rfl
      rw [quotient, neg_neg, Int.toNat_natCast, Rat.floor_natCast_div_natCast]
      rfl
  have nonnegative : (0 : ℚ) ≤ m * 2 ^ e := by positivity
  simp only [truncate?, magnitude, value]
  cases negative with
  | false => simp [truncation_of_nonneg nonnegative]
  | true => simp [truncation_neg, truncation_of_nonneg nonnegative]

/-! ### Integers that are floats -/

theorem exists_value_eq (i : Int) (small : i.natAbs < 2 ^ 53) :
    ∃ y : Binary64, y.IsRegular ∧ y.value = i := by
  rcases eq_or_ne i 0 with rfl | nonzero
  · exact ⟨zero false, (nearest_zero (q := 0) false (by simp)).regular, by simp [zero, value]⟩
  -- Shifted until the leading bit is set.
  have positive : i.natAbs ≠ 0 := Int.natAbs_ne_zero.mpr nonzero
  have lower := Nat.log2_self_le positive
  have upper := Nat.lt_log2_self (n := i.natAbs)
  have bits : i.natAbs.log2 < 53 := (Nat.log2_lt positive).mpr small
  obtain ⟨shift, total⟩ := Nat.exists_eq_add_of_le (Nat.le_of_lt_succ bits)
  refine ⟨finite (i < 0) (i.natAbs * 2 ^ shift) (-shift), ⟨?_, by omega, by omega, .inr ?_⟩, ?_⟩
  · calc i.natAbs * 2 ^ shift < 2 ^ (i.natAbs.log2 + 1) * 2 ^ shift := by gcongr
      _ = 2 ^ 53 := by rw [← pow_add]; congr 1; omega
  · calc 2 ^ 52 = 2 ^ i.natAbs.log2 * 2 ^ shift := by rw [← pow_add, ← total]
      _ ≤ i.natAbs * 2 ^ shift := by gcongr
  · have scale : ((i.natAbs * 2 ^ shift : Nat) : ℚ) * 2 ^ (-(shift : Int)) = |i| := by
      rw [Nat.cast_mul, zpow_neg, zpow_natCast, Nat.cast_pow, Nat.cast_ofNat,
        mul_inv_cancel_right₀ (by positivity), Nat.cast_natAbs, Int.cast_abs]
    rw [value, scale]
    by_cases negative : i < 0
    · have negative' : (i : ℚ) < 0 := by exact_mod_cast negative
      simp [negative, abs_of_neg negative']
    · have nonnegative : (0 : ℚ) ≤ i := by exact_mod_cast not_lt.mp negative
      simp [negative, abs_of_nonneg nonnegative]

theorem exists_intCast_eq (regular : x.IsRegular) (large : 2 ^ 52 ≤ |x.value|) :
    ∃ i : Int, x.value = i := by
  rcases exists_multiple regular 0 with ⟨j, multiple⟩ | ⟨-, below⟩
  · exact ⟨j, by rw [multiple, zpow_zero, mul_one]⟩
  · rw [zpow_zero, mul_one] at below
    exact absurd large below.not_ge

/-! ### Integer parts -/

theorem Nearest.value_eq (nearest : Nearest q x) {y : Binary64} (regular : y.IsRegular)
    (same : y.value = q) : x.value = q := by
  have near := nearest.near y regular
  rw [same, sub_self, abs_zero] at near
  exact (sub_eq_zero.mp (abs_eq_zero.mp (near.antisymm (abs_nonneg _)))).symm

/-- Half a unit of the float is less than the distance of such a number from the next integer. -/
theorem Nearest.truncation_eq (nearest : Nearest q x) {c k : Nat} (few : c < 2 ^ 53)
    (digits : |q| = c / 10 ^ k) : truncation x.value = truncation q := by
  wlog nonnegative : 0 ≤ q generalizing q x
  · have opposite := this nearest.neg (by rwa [abs_neg]) (by linarith)
    rw [value_neg, truncation_neg, truncation_neg] at opposite
    exact neg_injective opposite
  have ten : (0 : ℚ) < 10 ^ k := by positivity
  have few' : (c : ℚ) < 2 ^ 53 := by exact_mod_cast few
  rw [abs_of_nonneg nonnegative] at digits
  have below := Int.floor_le q
  have above := Int.lt_floor_add_one q
  have start : 0 ≤ ⌊q⌋ := Int.floor_nonneg.mpr nonnegative
  generalize whole : ⌊q⌋ = t at *
  have small : (t : ℚ) < 2 ^ 53 := by
    calc (t : ℚ) ≤ c / 10 ^ k := digits ▸ below
      _ ≤ c := div_le_self (Nat.cast_nonneg c) (one_le_pow₀ (by norm_num only))
      _ < 2 ^ 53 := few'
  have lower : t ≤ x.value := by
    obtain ⟨y, regular, same⟩ := exists_value_eq t (by
      have small' : t < 2 ^ 53 := by exact_mod_cast small
      omega)
    have near := nearest.near y regular
    rw [same, abs_of_nonneg (by linarith : 0 ≤ q - t)] at near
    linarith [le_abs_self (q - x.value)]
  have start' : (0 : ℚ) ≤ t := by exact_mod_cast start
  have upper : x.value < t + 1 := by
    by_contra far
    rw [not_lt] at far
    have distance : 1 / 10 ^ k ≤ |q - x.value| := by
      have short : (c : ℚ) < (t + 1) * 10 ^ k := (div_lt_iff₀ ten).mp (digits ▸ above)
      have short' : (c : Int) < (t + 1) * 10 ^ k := by exact_mod_cast short
      have apart : (c + 1 : ℚ) ≤ (t + 1) * 10 ^ k := by
        exact_mod_cast Int.add_one_le_iff.mpr short'
      have gap : q + 1 / 10 ^ k ≤ t + 1 := by
        rw [digits, ← add_div, div_le_iff₀ ten]
        exact apart
      linarith [neg_le_abs (q - x.value)]
    have fine : 2 ^ 53 * |q - x.value| ≤ q := by
      rcases nearest.close with tiny | close
      · have least : (2 : ℚ) ^ (-1075 : Int) ≤ 2 ^ (-54 : Int) :=
          zpow_le_zpow_right₀ one_le_two (by decide)
        have tiny' : |q - x.value| ≤ 1 / 2 ^ 54 := (tiny.trans least).trans_eq (by norm_num only)
        linarith [neg_le_abs (q - x.value)]
      · rwa [abs_of_nonneg nonnegative] at close
    have many : (2 ^ 53 : ℚ) * (1 / 10 ^ k) ≤ c / 10 ^ k := by
      rw [← digits]
      exact fine.trans' (by gcongr)
    rw [mul_one_div, div_le_div_iff_of_pos_right ten] at many
    linarith
  rw [truncation_of_nonneg (start'.trans lower), truncation_of_nonneg nonnegative, whole,
    Int.floor_eq_iff]
  exact ⟨lower, upper⟩

end Binary64

end Reshape
