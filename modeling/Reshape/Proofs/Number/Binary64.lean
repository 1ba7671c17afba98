import Mathlib.Tactic.NormNum
import Reshape.Number.Binary64
import Reshape.Proofs.Number.Numeral

/-!
Which numbers have a finite float.
-/

namespace Reshape.Binary64

variable {negative : Bool} {numerator denominator : Nat}

theorem exponentFor_le (numerator denominator : Nat) :
    exponentFor numerator denominator ≤ max (-1073) ((numerator.log2 : Int) - 52) := by
  rw [exponentFor]
  simp only
  split <;> omega

/-- A quotient with a numerator of fewer than 1000 bits is in range whatever the denominator is. -/
theorem isFinite_round (bits : numerator.log2 < 1000) :
    (round negative numerator denominator).isFinite := by
  have small := exponentFor_le numerator denominator
  rw [round]
  split
  · rfl
  · simp only
    split
    · rw [if_neg (by omega)]
      rfl
    · rw [if_neg (by omega)]
      rfl

/-- A plain numeral of few digits denotes a number in range. -/
theorem isFinite_ofNumeral {n : Numeral} (plain : n.isPlain) (whole : n.coefficient < 10 ^ 60)
    (fraction : n.fractionDigits.length ≤ 60) : (ofNumeral n).isFinite := by
  have power := Numeral.power_of_isPlain plain
  have digits : (Digit.ofNat n.coefficient).length ≤ 60 := Digit.length_ofNat_le whole
  have bits : n.coefficient.log2 < 200 := by
    rcases Nat.eq_zero_or_pos n.coefficient with zero | positive
    · simp [zero]
    · rw [Nat.log2_lt positive.ne']
      exact whole.trans (show 10 ^ 60 < 2 ^ 200 by norm_num)
  rw [ofNumeral]
  simp only
  split
  · rfl
  · rw [if_neg (by omega), if_neg (by omega)]
    split
    · have unscaled : n.power.toNat = 0 := by omega
      rw [unscaled]
      exact isFinite_round (by simp [tenPow]; omega)
    · exact isFinite_round (by omega)

end Reshape.Binary64
