import Mathlib.Data.Nat.Squarefree
import Reshape.Proofs.Number.Decimal.Text
import Reshape.Proofs.Number.Power

/-!
Powers of decimals. Written without zeros at its end a decimal has a power with as many digits as
the exponent says, so where a power is a decimal the smaller ones are, and no product in repeated
squaring is rounded.
-/

namespace Reshape.Decimal

variable {a b : Decimal} {k n : Nat}

/-- No zero stands at the end of the digits after the point. -/
def IsReduced (a : Decimal) : Prop := a.scale = 0 ∨ ¬ 10 ∣ a.coefficient.natAbs

theorem exists_reduced (a : Decimal) : ∃ b : Decimal, b.value = a.value ∧ b.IsReduced := by
  obtain ⟨c, s, small, fits⟩ := a
  induction s generalizing c with
  | zero => exact ⟨_, rfl, .inl rfl⟩
  | succ s ih =>
    by_cases ends : 10 ∣ c.natAbs
    · obtain ⟨shorter, rfl⟩ := Int.natCast_dvd.mpr ends
      obtain ⟨b, same, reduced⟩ := ih shorter (by omega) (by omega)
      refine ⟨b, same.trans ?_, reduced⟩
      rw [value, value, pow_succ]
      push_cast
      field_simp
    · exact ⟨_, rfl, .inr ends⟩

theorem squarefree_ten : Squarefree 10 := by
  rw [show 10 = 2 * 5 from rfl, Nat.squarefree_mul (by decide)]
  exact ⟨Nat.prime_two.prime.squarefree, Nat.prime_five.prime.squarefree⟩

/-- A power of a reduced decimal has all digits that its exponent asks for. -/
theorem IsReduced.pow_eq {c : Int} {s : Nat} (reduced : b.IsReduced)
    (same : b.value ^ n = c / 10 ^ s) :
    n * b.scale ≤ s ∧ b.coefficient ^ n * 10 ^ (s - n * b.scale) = c := by
  have crossed : b.coefficient ^ n * 10 ^ s = c * 10 ^ (n * b.scale) := by
    rw [value, div_pow, ← pow_mul, div_eq_div_iff (by positivity) (by positivity),
      Nat.mul_comm b.scale n] at same
    exact_mod_cast same
  have fits : n * b.scale ≤ s := by
    by_contra more
    obtain ⟨extra, count⟩ := Nat.exists_eq_add_of_lt (not_le.mp more)
    have divided : b.coefficient ^ n = (10 : Nat) * (c * 10 ^ extra) := by
      rw [count, pow_succ, pow_add] at crossed
      refine mul_right_cancel₀ (show (10 : Int) ^ s ≠ 0 by positivity) ?_
      rw [crossed]
      push_cast
      ring
    have ends : 10 ∣ b.coefficient.natAbs ^ n := by
      rw [← Int.natAbs_pow, ← Int.natCast_dvd, divided]
      exact dvd_mul_right _ _
    have nonzero : n ≠ 0 := by
      rintro rfl
      omega
    have scaled : b.scale ≠ 0 := by
      intro zero
      rw [zero] at count
      omega
    exact reduced.resolve_left scaled ((squarefree_ten.dvd_pow_iff_dvd nonzero).mp ends)
  refine ⟨fits, ?_⟩
  obtain ⟨extra, rfl⟩ := Nat.exists_eq_add_of_le fits
  rw [Nat.add_sub_cancel_left]
  refine mul_right_cancel₀ (show (10 : Int) ^ (n * b.scale) ≠ 0 by positivity) ?_
  rw [← crossed, pow_add]
  ring

theorem representable_pow_of_le (representable : Representable (a.value ^ n)) (below : k ≤ n) :
    Representable (a.value ^ k) := by
  obtain ⟨b, same, reduced⟩ := exists_reduced a
  rw [← same] at representable ⊢
  obtain ⟨z, power⟩ := representable
  obtain ⟨fits, coefficient⟩ := reduced.pow_eq power.symm
  have scale : k * b.scale ≤ 28 :=
    (Nat.mul_le_mul_right _ below).trans (fits.trans z.scale_le)
  have size : b.coefficient.natAbs ^ n ≤ z.coefficient.natAbs := by
    rw [← coefficient, Int.natAbs_mul, Int.natAbs_pow]
    exact Nat.le_mul_of_pos_right _ (by positivity)
  have small : (b.coefficient ^ k).natAbs < limit := by
    rw [Int.natAbs_pow]
    rcases Nat.eq_zero_or_pos b.coefficient.natAbs with zero | positive
    · rw [zero]
      exact (Nat.pow_le_pow_left (Nat.zero_le 1) k).trans_lt (by rw [one_pow]; decide)
    · exact ((Nat.pow_le_pow_right positive below).trans size).trans_lt z.coefficient_lt
  have value : b.value ^ k = (b.coefficient ^ k : Int) / 10 ^ (k * b.scale) := by
    rw [value, div_pow, ← pow_mul, Nat.mul_comm]
    push_cast
    rfl
  rw [value]
  exact representable_of_lt small scale

theorem powers_mul? (representable : Representable (a.value ^ n)) :
    Powers mul? (fun k result => ∃ x, result = some x ∧ x.value = a.value ^ k) n where
  multiplied i j y z left right below := by
    obtain ⟨y, ⟨rfl⟩, left⟩ := left
    obtain ⟨z, ⟨rfl⟩, right⟩ := right
    have product := mul?_rounds y z
    rw [left, right, ← pow_add] at product
    exact product.exact (representable_pow_of_le representable below)
  failed k overflow _ := by
    obtain ⟨x, absent, -⟩ := overflow
    cases absent

theorem exists_pow? (representable : Representable (a.value ^ n)) :
    ∃ x, pow? a n = some x ∧ x.value = a.value ^ n := by
  have unit : one.value = a.value ^ 0 := by simp [one, value]
  obtain ⟨x, power, exact⟩ := (powers_mul? representable).power? ⟨one, rfl, unit⟩
    ⟨a, rfl, (pow_one a.value).symm⟩
  refine ⟨x, ?_, exact⟩
  rw [pow?, Int.natAbs_natCast, power, Option.bind_eq_bind, Option.bind_some,
    if_pos (Int.natCast_nonneg n)]

theorem integer?_of_value {i : Int} (integral : b.value = i) : b.integer? = some i := by
  have ten : (tenPow b.scale : Int) ≠ 0 := by exact_mod_cast (tenPow_pos b.scale).ne'
  have coefficient : b.coefficient = i * tenPow b.scale := by
    rw [value, div_eq_iff (by positivity), ← cast_tenPow] at integral
    exact_mod_cast integral
  rw [integer?, coefficient, if_pos (Int.mul_emod_left i _), Int.mul_ediv_cancel i ten]

end Reshape.Decimal
