import Reshape.Proofs.Number.Decimal.Rounding
import Reshape.Proofs.Number.Division

/-!
Division of decimals with the quotient rounded down. The remainder is computed to the sign of the
divisor and the quotient from what it leaves of the dividend, so both are right as long as neither
needs more digits than a decimal has.
-/

namespace Reshape

namespace Decimal

variable {a b q r : Decimal}

/-! ### Remainders -/

theorem coefficientAt_own (a : Decimal) : a.coefficientAt a.scale = a.coefficient := by
  rw [coefficientAt, Nat.sub_self]
  exact Int.mul_one _

theorem abs_coefficientAt_div {scale : Nat} (below : a.scale ≤ scale) :
    ((a.coefficientAt scale).natAbs : ℚ) / 10 ^ scale = |a.value| := by
  have ten : (0 : ℚ) < 10 ^ scale := by positivity
  rw [← coefficientAt_div below, abs_div, abs_of_pos ten, Nat.cast_natAbs, Int.cast_abs]

theorem natAbs_coefficientAt_pos {scale : Nat} (below : b.scale ≤ scale) (nonzero : b.value ≠ 0) :
    0 < (b.coefficientAt scale).natAbs := by
  rw [Int.natAbs_pos]
  intro zero
  have same := coefficientAt_div below
  rw [zero, Int.cast_zero, zero_div] at same
  exact nonzero same.symm

/-- One of the operands has the scale of the remainder, which is no larger than either. -/
theorem natAbs_tmod_lt_limit (a : Decimal) (nonzero : b.value ≠ 0) :
    ((a.coefficientAt (max a.scale b.scale)).tmod
      (b.coefficientAt (max a.scale b.scale))).natAbs < limit := by
  rw [Int.natAbs_tmod]
  rcases le_total a.scale b.scale with below | above
  · have divisor := natAbs_coefficientAt_pos (le_refl b.scale) nonzero
    rw [max_eq_right below]
    rw [coefficientAt_own] at *
    exact (Nat.mod_lt _ divisor).trans b.coefficient_lt
  · rw [max_eq_left above, coefficientAt_own]
    exact (Nat.mod_le ..).trans_lt a.coefficient_lt

/-- The remainder of the division toward zero is not rounded. -/
theorem exists_rem? (a : Decimal) (nonzero : b.value ≠ 0) :
    ∃ (r : Decimal) (k : Int), rem? a b = some r ∧ a.value = b.value * k + r.value ∧
      |r.value| < |b.value| := by
  have left := coefficientAt_div (le_max_left a.scale b.scale)
  have right := coefficientAt_div (le_max_right a.scale b.scale)
  have size := abs_coefficientAt_div (le_max_right a.scale b.scale)
  have divisor := natAbs_coefficientAt_pos (le_max_right a.scale b.scale) nonzero
  have small := natAbs_tmod_lt_limit a nonzero
  have fits : max a.scale b.scale ≤ 28 := max_le a.scale_le b.scale_le
  simp only [rem?]
  generalize a.coefficientAt (max a.scale b.scale) = m at *
  generalize b.coefficientAt (max a.scale b.scale) = n at *
  obtain ⟨division, below⟩ := truncated m (Int.natAbs_pos.mp divisor)
  refine ⟨_, m.tdiv n, make?_of_lt small fits, ?_, ?_⟩
  · rw [← left, ← right, division, value]
    ring
  · rw [← Int.cast_abs, ← Int.cast_abs, ← Nat.cast_natAbs, ← Nat.cast_natAbs] at below
    rw [abs_value, ← size]
    gcongr

theorem signs_differ_iff (r : Decimal) (nonzero : b.value ≠ 0) :
    (!r.isZero && r.isNegative != b.isNegative) = true ↔ r.value * b.value < 0 := by
  rw [isZero_eq, isNegative_eq, isNegative_eq, mul_neg_iff]
  rcases lt_or_gt_of_ne nonzero with negative | positive
  · simp only [negative, negative.not_gt]
    grind
  · simp only [positive, positive.not_gt]
    grind

/-- The remainder is the one of the division law, rounded where it has too many digits. -/
theorem exists_floorMod? (a : Decimal) (nonzero : b.value ≠ 0) :
    ∃ r, floorMod? a b = some r ∧
      (r.value = floorRemainder a.value b.value ∨
        Rounds (floorRemainder a.value b.value) (some r)) := by
  obtain ⟨r, k, rem, exact, small⟩ := exists_rem? a nonzero
  obtain ⟨right, wrong⟩ := floorDivision_of_truncated nonzero exact small
  rw [floorMod?, rem, Option.bind_eq_bind, Option.bind_some]
  split
  · next turned =>
    -- The sum has the value of the law's remainder, but may have too many digits for a decimal.
    rw [signs_differ_iff r nonzero] at turned
    have law := ((floorDivision_iff nonzero).mp (wrong turned)).2
    have size := (wrong turned).small
    have rounds := add?_rounds r b
    rw [law] at rounds size
    obtain ⟨y, found, -⟩ := rounds.exists_of_le size.le
    exact ⟨y, found, .inr (found ▸ rounds)⟩
  · next kept =>
    rw [signs_differ_iff r nonzero, not_lt] at kept
    exact ⟨r, rfl, .inl ((floorDivision_iff nonzero).mp (right kept)).2⟩

/-- What a remainder keeps of the division law when it has to be rounded. -/
structure RoundedRemainder (a b r : Decimal) : Prop where
  sign : 0 ≤ r.value * b.value
  small : |r.value| ≤ |b.value|
  near : |r.value - floorRemainder a.value b.value| ≤ 1 / (2 * 10 ^ r.scale)
  exact_iff : r.value = floorRemainder a.value b.value ↔
    Representable (floorRemainder a.value b.value)

theorem exists_roundedRemainder (a : Decimal) (nonzero : b.value ≠ 0) :
    ∃ r, floorMod? a b = some r ∧ RoundedRemainder a b r := by
  have sign := floorRemainder_mul_nonneg a.value nonzero
  have small := abs_floorRemainder_lt a.value nonzero
  obtain ⟨r, found, same | rounds⟩ := exists_floorMod? a nonzero
  · refine ⟨r, found, same ▸ sign, same ▸ small.le, ?_, iff_of_true same ⟨r, same⟩⟩
    rw [same, sub_self, abs_zero]
    positivity
  · obtain ⟨y, own, -, bound⟩ := rounds.exists_of_le small.le
    cases own
    refine ⟨r, found, rounds.mul_nonneg sign, bound, rounds.near, fun same => ⟨r, same⟩, ?_⟩
    intro representable
    obtain ⟨y, own, same⟩ := rounds.exact representable
    cases own
    exact same

/-! ### Quotients -/

/-- What a quotient keeps of the division law: all of it if neither the remainder nor what it leaves
of the dividend is rounded. -/
structure RoundedQuotient (a b q r : Decimal) : Prop where
  near : |a.value - (b.value * q.value + r.value)| ≤ (|b.value| + 1) / 2
  floor : Representable (floorRemainder a.value b.value) →
    Representable (a.value - floorRemainder a.value b.value) → q.value = ⌊a.value / b.value⌋
  law_iff : FloorDivision a.value b.value q.value r.value ↔
    Representable (floorRemainder a.value b.value) ∧ q.value = ⌊a.value / b.value⌋

theorem floorDiv?_eq_bind (found : floorMod? a b = some r) :
    floorDiv? a b = (sub? a r).bind fun w => div? w b := by
  rw [floorDiv?, found]
  rfl

theorem floorDiv?_rounds (nonzero : b.value ≠ 0)
    (remainder : Representable (floorRemainder a.value b.value))
    (whole : Representable (a.value - floorRemainder a.value b.value)) :
    Rounds ⌊a.value / b.value⌋ (floorDiv? a b) := by
  obtain ⟨r, found, rounded⟩ := exists_roundedRemainder a nonzero
  have same := rounded.exact_iff.mpr remainder
  rw [← same] at whole
  obtain ⟨w, left, own⟩ := (sub?_rounds a r).exact whole
  have quotient := div?_rounds w nonzero
  rw [own, same, floorRemainder, sub_sub_cancel, mul_div_cancel_left₀ _ nonzero] at quotient
  rw [floorDiv?_eq_bind found, left]
  exact quotient

theorem roundedQuotient (nonzero : b.value ≠ 0) (found : floorMod? a b = some r)
    (quotient : floorDiv? a b = some q) : RoundedQuotient a b q r where
  near := by
    rw [floorDiv?_eq_bind found, Option.bind_eq_some_iff] at quotient
    obtain ⟨w, left, divided⟩ := quotient
    have half : ∀ y : Decimal, (1 / (2 * 10 ^ y.scale) : ℚ) ≤ 1 / 2 := by
      intro y
      gcongr
      exact le_mul_of_one_le_right (by norm_num) (one_le_pow₀ (by norm_num))
    have first := ((left ▸ sub?_rounds a r).near).trans (half w)
    have second := ((divided ▸ div?_rounds w nonzero).near).trans (half q)
    have scaled : |b.value * q.value - w.value| ≤ |b.value| / 2 := by
      calc |b.value * q.value - w.value| = |b.value| * |q.value - w.value / b.value| := by
            rw [← abs_mul, mul_sub, mul_div_cancel₀ _ nonzero]
        _ ≤ |b.value| * (1 / 2) := by gcongr
        _ = |b.value| / 2 := by ring
    rw [abs_le] at *
    constructor <;> linarith
  floor remainder whole := by
    have rounds := floorDiv?_rounds nonzero remainder whole
    rw [quotient] at rounds
    exact rounds.value_eq_intCast
  law_iff := by
    obtain ⟨y, own, rounded⟩ := exists_roundedRemainder a nonzero
    cases found.symm.trans own
    rw [floorDivision_iff nonzero, rounded.exact_iff, and_comm]

theorem representable_intCast_iff {k : Int} : Representable k ↔ k.natAbs < limit := by
  constructor
  · rintro ⟨a, same⟩
    have size : (k.natAbs : ℚ) ≤ a.coefficient.natAbs := by
      rw [Nat.cast_natAbs, Int.cast_abs, ← same, abs_value]
      exact div_le_self (by positivity) (one_le_pow₀ (by norm_num))
    exact (show k.natAbs ≤ a.coefficient.natAbs by exact_mod_cast size).trans_lt a.coefficient_lt
  · intro small
    simpa using representable_of_lt small (Nat.zero_le 28)

/-- Operands that fit together on a common scale leave room for remainder and quotient. -/
theorem representable_of_add_le {scale : Nat} (nonzero : b.value ≠ 0) (left : a.scale ≤ scale)
    (right : b.scale ≤ scale) (fits : scale ≤ 28)
    (room : (a.coefficientAt scale).natAbs + (b.coefficientAt scale).natAbs ≤ limit) :
    Representable (floorRemainder a.value b.value) ∧
      Representable (a.value - floorRemainder a.value b.value) ∧
      ⌊a.value / b.value⌋.natAbs < limit := by
  have small := abs_floorRemainder_lt a.value nonzero
  have size := abs_coefficientAt_div right
  have ten : (0 : ℚ) < 10 ^ scale := by positivity
  rw [floorRemainder] at small ⊢
  generalize ⌊a.value / b.value⌋ = k at small ⊢
  rw [← size, ← coefficientAt_div left, ← coefficientAt_div right] at small
  rw [sub_sub_cancel, ← coefficientAt_div left, ← coefficientAt_div right]
  generalize a.coefficientAt scale = m at *
  generalize b.coefficientAt scale = n at *
  have remainder : (m / 10 ^ scale - n / 10 ^ scale * k : ℚ) = (m - n * k : Int) / 10 ^ scale := by
    push_cast
    ring
  have whole : (n / 10 ^ scale * k : ℚ) = (n * k : Int) / 10 ^ scale := by
    push_cast
    ring
  have below : (m - n * k).natAbs < n.natAbs := by
    rw [remainder, abs_div, abs_of_pos ten, ← Int.cast_abs, ← Nat.cast_natAbs,
      div_lt_div_iff_of_pos_right ten] at small
    exact_mod_cast small
  -- What the remainder leaves of the dividend is at most the dividend and a divisor.
  have product : (n * k).natAbs < limit := by omega
  rw [remainder, whole]
  refine ⟨representable_of_lt (by omega) fits, representable_of_lt product fits, ?_⟩
  rw [Int.natAbs_mul] at product
  exact (Nat.le_mul_of_pos_left _ (by omega)).trans_lt product

theorem exists_floorDivision {scale : Nat} (nonzero : b.value ≠ 0) (left : a.scale ≤ scale)
    (right : b.scale ≤ scale) (fits : scale ≤ 28)
    (room : (a.coefficientAt scale).natAbs + (b.coefficientAt scale).natAbs ≤ limit)
    (found : floorMod? a b = some r) :
    ∃ q, floorDiv? a b = some q ∧ FloorDivision a.value b.value q.value r.value := by
  obtain ⟨remainder, whole, inRange⟩ := representable_of_add_le nonzero left right fits room
  have rounds := floorDiv?_rounds nonzero remainder whole
  obtain ⟨q, quotient, same⟩ := rounds.exact (representable_intCast_iff.mpr inRange)
  exact ⟨q, quotient, (roundedQuotient nonzero found quotient).law_iff.mpr ⟨remainder, same⟩⟩

end Decimal

end Reshape
