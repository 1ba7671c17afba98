import Mathlib.Tactic.Ring
import Reshape.Number.Power

/-!
Repeated squaring for a multiplication that may fail or round. Whatever holds of the powers that it
multiplies holds of the result, and none of them is larger than the result: the square that would
follow the highest bit is not computed.
-/

namespace Reshape

variable {α : Type} {multiply : α → α → Option α} {Outcome : Nat → Option α → Prop}
  {one base product : α} {fuel limit n i j : Nat}

/-- A multiplication gives the outcomes of all powers up to `limit`, and has failed for `limit` once
it fails. -/
structure Powers (multiply : α → α → Option α) (Outcome : Nat → Option α → Prop) (limit : Nat) :
    Prop where
  multiplied : ∀ i j y z, Outcome i (some y) → Outcome j (some z) → i + j ≤ limit →
    Outcome (i + j) (multiply y z)
  failed : ∀ i, Outcome i none → i ≤ limit → Outcome limit none

/-- The lowest bit of `n` goes to the product and the others to the square. -/
theorem add_mul_bits (i j n : Nat) :
    i + j * n = (if n % 2 = 1 then i + j else i) + (j + j) * (n / 2) := by
  have halves := Nat.div_add_mod n 2
  have bit : n % 2 = 0 ∨ n % 2 = 1 := by omega
  generalize n / 2 = half at *
  rcases bit with even | odd
  · rw [if_neg (by omega), ← halves, even]
    ring
  · rw [if_pos odd, ← halves, odd]
    ring

theorem powerBits_succ (multiply : α → α → Option α) (fuel n : Nat) (product base : α) :
    powerBits multiply (fuel + 1) n product base =
      (if n % 2 = 1 then multiply product base else some product).bind fun product =>
        if n / 2 = 0 then some product
        else (multiply base base).bind (powerBits multiply fuel (n / 2) product) := by
  rw [powerBits]
  split <;> rfl

/-- The exponents of product and base lead to `limit` in every round. -/
theorem Powers.powerBits (powers : Powers multiply Outcome limit) (enough : n < 2 ^ fuel)
    (done : Outcome i (some product)) (left : Outcome j (some base)) (total : i + j * n = limit) :
    Outcome limit (powerBits multiply fuel n product base) := by
  induction fuel generalizing n i j product base with
  | zero =>
    obtain rfl : n = 0 := by simpa using enough
    rw [← total]
    exact done
  | succ fuel ih =>
    rw [pow_succ] at enough
    rw [add_mul_bits] at total
    rw [powerBits_succ]
    have next : Outcome (if n % 2 = 1 then i + j else i)
        (if n % 2 = 1 then multiply product base else some product) := by
      split
      · next odd =>
        rw [if_pos odd] at total
        exact powers.multiplied _ _ _ _ done left (by omega)
      · exact done
    generalize (if n % 2 = 1 then i + j else i) = i' at *
    generalize (if n % 2 = 1 then multiply product base else some product) = product'? at *
    cases product'? with
    | none => exact powers.failed _ next (by omega)
    | some product' =>
      rw [Option.bind_some]
      split
      · next last =>
        rw [last, Nat.mul_zero, Nat.add_zero] at total
        rwa [← total]
      · next more =>
        -- A bit is left, so the square is a part of what is still to come.
        have part : j + j ≤ (j + j) * (n / 2) := Nat.le_mul_of_pos_right _ (by omega)
        have square := powers.multiplied _ _ _ _ left left (by omega)
        cases squared : multiply base base with
        | none =>
          rw [squared] at square
          exact powers.failed _ square (by omega)
        | some base' =>
          rw [squared] at square
          exact ih (by omega) next square total

theorem Powers.power? (powers : Powers multiply Outcome n) (unit : Outcome 0 (some one))
    (first : Outcome 1 (some base)) : Outcome n (power? multiply one base n) := by
  rw [Reshape.power?]
  split
  · next zero => rwa [zero]
  · exact powers.powerBits Nat.lt_log2_self unit first (by omega)

end Reshape
