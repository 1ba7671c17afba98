import Mathlib.Algebra.Order.Ring.Int
import Mathlib.Algebra.Ring.Parity
import Reshape.Number.Word
import Reshape.Proofs.Number.Numeral
import Reshape.Proofs.Number.Power
import Reshape.Proofs.Text.Blank

/-!
Arithmetic on words. Powers by repeated squaring are refused if and only if they are out of range,
and the quotient toward zero only for the least word and -1.
-/

namespace Reshape

theorem Digit.isBlank_toChar (d : Digit) : Text.isBlank d.toChar = false := by
  revert d
  decide

namespace Word

variable {a b m n i : Int} {k count : Nat}

theorem holds_iff : holds n = true ↔ least ≤ n ∧ n ≤ greatest := by simp [holds]

theorem fit?_of_holds (inRange : holds n = true) : fit? n = some n := by rw [fit?, if_pos inRange]

theorem fit?_eq_none_iff : fit? n = none ↔ holds n = false := by
  unfold fit?
  split <;> simp_all

/-- The range is nearly symmetric: a number closer to zero than a word is a word. -/
theorem holds_of_natAbs_lt (inRange : holds n = true) (smaller : m.natAbs < n.natAbs) :
    holds m = true := by
  simp only [holds_iff, least, greatest] at *
  omega

/-! ### Text -/

theorem ofNumeral?_ofInt (inRange : holds n = true) : ofNumeral? (.ofInt n) = some n := by
  rw [ofNumeral?, Numeral.integer?_ofInt, Option.bind_some, fit?_of_holds inRange]

theorem holds_of_ofNumeral? {numeral : Numeral} (read : ofNumeral? numeral = some n) :
    holds n = true := by
  obtain ⟨m, -, fits⟩ := Option.bind_eq_some_iff.mp read
  obtain ⟨inRange, rfl⟩ := fit?_eq_some_iff.mp fits
  exact inRange

theorem holds_of_read? {text : String} (read : read? text = some n) : holds n = true := by
  obtain ⟨numeral, -, read⟩ := Option.bind_eq_some_iff.mp read
  exact holds_of_ofNumeral? read

theorem trim_text (n : Int) : Text.trim (Numeral.ofInt n).text = (Numeral.ofInt n).text := by
  refine Text.trim_of_unblank fun c member => ?_
  rw [Numeral.text, String.toList_ofList, Numeral.toChars_eq] at member
  simp only [Numeral.ofInt, Numeral.fractionChars, Numeral.exponentChars, List.append_nil,
    List.mem_append, List.mem_map] at member
  rcases member with sign | ⟨d, -, rfl⟩
  · obtain rfl : c = '-' := by
      by_cases negative : n < 0 <;> simp_all
    decide
  · exact d.isBlank_toChar

theorem read?_text (inRange : holds n = true) :
    read? (Text.trim (Numeral.ofInt n).text) = some n := by
  rw [trim_text, read?, Numeral.read?_text_ofInt, Option.bind_some, ofNumeral?_ofInt inRange]

/-! ### Powers -/

/-- Powers do not come back into range. -/
theorem holds_pow_of_le (inRange : holds (a ^ count) = true) (below : k ≤ count) :
    holds (a ^ k) = true := by
  rcases Nat.lt_or_eq_of_le below with lower | rfl
  · rcases Nat.lt_or_ge 1 a.natAbs with large | unit
    · refine holds_of_natAbs_lt inRange ?_
      rw [Int.natAbs_pow, Int.natAbs_pow]
      exact Nat.pow_lt_pow_right large lower
    · have size : (a ^ k).natAbs ≤ 1 := by
        rw [Int.natAbs_pow]
        exact (Nat.pow_le_pow_left unit k).trans_eq (one_pow k)
      simp only [holds_iff, least, greatest]
      omega
  · exact inRange

theorem holds_pow_of_large (large : 1 < a.natAbs) (many : 64 ≤ count) :
    holds (a ^ count) = false := by
  have size : 2 ^ 64 ≤ (a ^ count).natAbs := by
    rw [Int.natAbs_pow]
    exact (Nat.pow_le_pow_right (by decide) many).trans (Nat.pow_le_pow_left large count)
  rw [← Bool.not_eq_true, holds_iff, least, greatest]
  omega

theorem powers_mul? (a : Int) (count : Nat) :
    Powers mul? (fun k result => result = fit? (a ^ k)) count where
  multiplied i j y z left right _ := by
    rw [eq_comm, fit?_eq_some_iff] at left right
    rw [mul?, ← left.2, ← right.2, pow_add]
  failed k overflow below := by
    rw [eq_comm, fit?_eq_none_iff] at *
    by_contra inRange
    rw [holds_pow_of_le (by simpa using inRange) below] at overflow
    cases overflow

theorem power?_mul? (inRange : holds a = true) (count : Nat) :
    Reshape.power? mul? 1 a count = fit? (a ^ count) := by
  refine (powers_mul? a count).power? ?_ ?_
  · rw [pow_zero]
    rfl
  · rw [pow_one, fit?_of_holds inRange]

/-! ### Quotients -/

theorem div?_of_ne_zero (nonzero : b ≠ 0) : div? a b = fit? (a.tdiv b) := if_neg nonzero

theorem holds_tdiv_iff (left : holds a = true) (nonzero : b ≠ 0) :
    holds (a.tdiv b) = true ↔ ¬ (a = least ∧ b = -1) := by
  have size : (a.tdiv b).natAbs = a.natAbs / b.natAbs := Int.natAbs_tdiv a b
  rw [holds_iff, least, greatest] at *
  by_cases unit : b.natAbs = 1
  · rcases (show b = 1 ∨ b = -1 by omega) with rfl | rfl
    · rw [Int.tdiv_one]
      omega
    · rw [Int.tdiv_neg, Int.tdiv_one]
      omega
  · have half : a.natAbs / b.natAbs ≤ a.natAbs / 2 := Nat.div_le_div_left (by omega) (by decide)
    omega

/-- Where a remainder is left the divisor is at least two, so the quotient is far from the ends of
the range. -/
theorem holds_tdiv_sub_one (left : holds a = true) (nonzero : b ≠ 0) (rest : a.tmod b ≠ 0) :
    holds (a.tdiv b - 1) = true := by
  have size : (a.tdiv b).natAbs = a.natAbs / b.natAbs := Int.natAbs_tdiv a b
  have remainder : (a.tmod b).natAbs = a.natAbs % b.natAbs := Int.natAbs_tmod a b
  have large : b.natAbs ≠ 1 := by
    intro unit
    rw [unit, Nat.mod_one] at remainder
    omega
  have half : a.natAbs / b.natAbs ≤ a.natAbs / 2 := Nat.div_le_div_left (by omega) (by decide)
  rw [holds_iff, least, greatest] at *
  omega

theorem holds_tmod_add (a : Int) (right : holds b = true)
    (signs : 0 < a.tmod b ∧ b < 0 ∨ a.tmod b < 0 ∧ 0 < b) : holds (a.tmod b + b) = true := by
  have remainder : (a.tmod b).natAbs = a.natAbs % b.natAbs := Int.natAbs_tmod a b
  have below : a.natAbs % b.natAbs < b.natAbs := Nat.mod_lt _ (by omega)
  rw [holds_iff, least, greatest] at *
  omega

end Word

end Reshape
