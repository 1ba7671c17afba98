import Mathlib.Tactic.NormNum
import Reshape.Json.Equality
import Reshape.Proofs.Lookup.Arithmetic
import Reshape.Proofs.Number.Binary64
import Reshape.Proofs.Number.Word

/-!
The arithmetic lookup on integers. A result is the exact one, and overflow is reported if and only
if that one is out of range; but for the remainder of the least word by -1, which is refused along
with the quotient. The results are about all words, in either order: no other integers are taken
(`Takes.words`), and every two words are (`exists_takes`).
-/

namespace Reshape.Arithmetic

variable {lookup : Arithmetic} {n : Numeral} {a b z : Int}

/-! ### Words and their operations -/

theorem opposed_iff {r : Int} (nonzero : b ≠ 0) :
    opposed r b = true ↔ 0 < r ∧ b < 0 ∨ r < 0 ∧ 0 < b := by
  rw [opposed]
  grind

theorem refused_least : floorDiv? Word.least (-1) = none ∧ floorMod? Word.least (-1) = none := by
  decide

theorem exists_floorDivision (left : Word.holds a = true) (right : Word.holds b = true)
    (nonzero : b ≠ 0) (regular : ¬ (a = Word.least ∧ b = -1)) :
    ∃ q r : Int, floorDiv? a b = some q ∧ floorMod? a b = some r ∧ Word.holds q = true ∧
      FloorDivision a b q r := by
  have toward := (Word.holds_tdiv_iff left nonzero).mpr regular
  have quotient := Word.div?_of_ne_zero (a := a) nonzero
  rw [Word.fit?_of_holds toward] at quotient
  obtain ⟨exact, small⟩ := truncated a nonzero
  obtain ⟨kept, moved⟩ := floorDivision_of_truncated (by exact_mod_cast nonzero) exact small
  simp only [floorDiv?, floorMod?, Word.rem?, quotient, Option.bind_eq_bind, Option.bind_some,
    Option.map_some]
  by_cases turned : opposed (a.tmod b) b = true
  -- A remainder is left, so the quotient has room for one less and the remainder for the divisor.
  · have signs := (opposed_iff nonzero).mp turned
    have down := Word.holds_tdiv_sub_one left nonzero (by omega)
    rw [if_pos turned, if_pos turned, Word.fit?_of_holds down,
      Word.fit?_of_holds (Word.holds_tmod_add a right signs)]
    refine ⟨_, _, rfl, rfl, down, ?_⟩
    rw [Int.cast_add]
    exact moved (by exact_mod_cast mul_neg_iff.mpr signs)
  · rw [if_neg turned, if_neg turned]
    refine ⟨_, _, rfl, rfl, toward, kept ?_⟩
    rw [opposed_iff nonzero, ← mul_neg_iff, not_lt] at turned
    exact_mod_cast turned

/-- Quotient and remainder are refused together, and otherwise obey the law of division. -/
theorem floorDivision_cases (left : Word.holds a = true) (right : Word.holds b = true)
    (nonzero : b ≠ 0) :
    (a = Word.least ∧ b = -1) ∧ floorDiv? a b = none ∧ floorMod? a b = none ∨
    ¬ (a = Word.least ∧ b = -1) ∧ ∃ q r : Int, floorDiv? a b = some q ∧ floorMod? a b = some r ∧
      Word.holds q = true ∧ FloorDivision a b q r := by
  by_cases regular : a = Word.least ∧ b = -1
  · obtain ⟨rfl, rfl⟩ := regular
    exact .inl ⟨⟨rfl, rfl⟩, refused_least⟩
  · exact .inr ⟨regular, exists_floorDivision left right nonzero regular⟩

theorem floor_least_div : ⌊(Word.least / (-1 : Int) : ℚ)⌋ = -Word.least := by
  have opposite : (Word.least / (-1 : Int) : ℚ) = (-Word.least : Int) := by
    push_cast
    rw [div_neg, div_one]
  rw [opposite, Int.floor_intCast]

theorem floorDiv?_eq_fit? (left : Word.holds a = true) (right : Word.holds b = true)
    (nonzero : b ≠ 0) : floorDiv? a b = Word.fit? ⌊(a / b : ℚ)⌋ := by
  rcases floorDivision_cases left right nonzero with
    ⟨⟨rfl, rfl⟩, refused, -⟩ | ⟨-, q, r, quotient, -, inRange, law⟩
  · rw [refused, floor_least_div]
    rfl
  · have floor : q = ⌊(a / b : ℚ)⌋ := by exact_mod_cast law.quotient
    rw [quotient, ← floor, Word.fit?_of_holds inRange]

theorem power?_eq_fit? (inRange : Word.holds a = true) (count : Nat) :
    power? a count = Word.fit? (a ^ count) := by
  have bits : twoPow 32 = 4294967296 := rfl
  rw [power?, bits]
  split
  · exact Word.power?_mul? inRange count
  · next many =>
    split_ifs with trivial inverse even
    · rcases trivial with rfl | rfl
      · rw [zero_pow (by omega)]
        rfl
      · rw [one_pow]
        rfl
    · rw [inverse, (Nat.even_iff.mpr even).neg_one_pow]
      rfl
    · rw [inverse, (Nat.odd_iff.mpr (by omega)).neg_one_pow]
      rfl
    · rw [Word.fit?_eq_none_iff.mpr (Word.holds_pow_of_large (by omega) (by omega))]

/-! ### Evaluation -/

/-- A computed integer as the result of a lookup. -/
def writtenInteger (op : Operator) : Option Int → Except LookupError Json
  | some z => .ok (.number (.ofInt z))
  | none => .error (.arithmetic op .integerOverflow)

theorem Takes.evaluate_eq_written {z? : Option Int} (takes : lookup.Takes n (.integer a) (.integer b))
    (computed : onIntegers lookup.operator a b = .integer <$> orFault .integerOverflow z?) :
    lookup.evaluate (.number n) = writtenInteger lookup.operator z? := by
  cases z? with
  | none => exact takes.evaluate_eq_error computed
  | some z => exact takes.evaluate_eq_ok computed rfl

theorem ofNumeral?_eq_integer_iff : Quantity.ofNumeral? n = some (.integer z) ↔
    Word.ofNumeral? n = some z := by
  rw [Quantity.ofNumeral?]
  split
  · simp_all
  · split <;> simp_all

theorem operandLike_eq_integer_iff {x : Int} :
    lookup.operandLike (.integer x) = .ok (.integer z) ↔
      Word.read? (Text.trim lookup.operand) = some z := by
  unfold operandLike
  dsimp only
  cases Word.read? (Text.trim lookup.operand) <;> simp

/-- Integers are taken when value and operand are words, which stand in the order of the lookup. -/
theorem takes_integers_iff : lookup.Takes n (.integer a) (.integer b) ↔
    ∃ value operand, Word.ofNumeral? n = some value ∧
      Word.read? (Text.trim lookup.operand) = some operand ∧
      (a, b) = if lookup.reverse then (operand, value) else (value, operand) := by
  constructor
  · rintro ⟨value, operand, known, read, sides⟩
    split at sides
    · next reversed =>
      cases sides
      rw [ofNumeral?_eq_integer_iff] at known
      rw [operandLike_eq_integer_iff] at read
      exact ⟨b, a, known, read, (if_pos reversed).symm⟩
    · next direct =>
      cases sides
      rw [ofNumeral?_eq_integer_iff] at known
      rw [operandLike_eq_integer_iff] at read
      exact ⟨a, b, known, read, (if_neg direct).symm⟩
  · rintro ⟨value, operand, known, read, sides⟩
    refine ⟨.integer value, .integer operand, ofNumeral?_eq_integer_iff.mpr known,
      operandLike_eq_integer_iff.mpr read, ?_⟩
    split at sides
    · next reversed =>
      cases sides
      exact (if_pos reversed).symm
    · next direct =>
      cases sides
      exact (if_neg direct).symm

theorem Takes.words (takes : lookup.Takes n (.integer a) (.integer b)) :
    Word.holds a = true ∧ Word.holds b = true := by
  obtain ⟨value, operand, known, read, sides⟩ := takes_integers_iff.mp takes
  replace known := Word.holds_of_ofNumeral? known
  replace read := Word.holds_of_read? read
  split at sides
  · cases sides
    exact ⟨read, known⟩
  · cases sides
    exact ⟨known, read⟩

theorem make_written (op : Operator) (reverse : Bool) (inRange : Word.holds z = true) :
    make op (Numeral.ofInt z).text reverse = .ok ⟨op, (Numeral.ofInt z).text, reverse⟩ := by
  have size : (Numeral.ofInt z).coefficient < 10 ^ 60 := by
    rw [Word.holds_iff, Word.least, Word.greatest] at inRange
    simp only [Numeral.coefficient, Numeral.ofInt, Numeral.fractionDigits, Option.getD_none,
      List.append_nil, Digit.toNat_ofNat]
    omega
  have finite := Binary64.isFinite_ofNumeral (n := .ofInt z) rfl size (Nat.zero_le 60)
  have read : (Binary64.read? (Text.trim (Numeral.ofInt z).text)).isSome := by
    rw [Word.trim_text, Binary64.read?, Numeral.read?_text_ofInt, Option.bind_some,
      Binary64.finite?, if_pos finite]
    rfl
  rw [make, if_pos read]

/-- Every two words are taken in either order, by a lookup that can be made. -/
theorem exists_takes (op : Operator) (reverse : Bool) (left : Word.holds a = true)
    (right : Word.holds b = true) :
    ∃ lookup n, make op lookup.operand reverse = .ok lookup ∧
      lookup.Takes n (.integer a) (.integer b) := by
  cases reverse with
  | false =>
    exact ⟨⟨op, (Numeral.ofInt b).text, false⟩, .ofInt a, make_written op false right,
      takes_integers_iff.mpr ⟨a, b, Word.ofNumeral?_ofInt left, Word.read?_text right, rfl⟩⟩
  | true =>
    exact ⟨⟨op, (Numeral.ofInt a).text, true⟩, .ofInt b, make_written op true left,
      takes_integers_iff.mpr ⟨b, a, Word.ofNumeral?_ofInt right, Word.read?_text left, rfl⟩⟩

theorem exists_onIntegers {op : Operator} (left : Word.holds a = true) (right : Word.holds b = true)
    (operator : op ≠ .div ∧ op ≠ .mod) (divisor : op = .floorDiv → b ≠ 0)
    (exponent : op = .pow → 0 ≤ b) :
    ∃ z : Int, op.Exact a b z ∧
      onIntegers op a b = .integer <$> orFault .integerOverflow (Word.fit? z) := by
  cases op with
  | add => exact ⟨a + b, Int.cast_add a b, rfl⟩
  | sub => exact ⟨a - b, Int.cast_sub a b, rfl⟩
  | mul => exact ⟨a * b, Int.cast_mul a b, rfl⟩
  | floorDiv =>
    have nonzero := divisor rfl
    refine ⟨⌊(a / b : ℚ)⌋, ⟨by exact_mod_cast nonzero, rfl⟩, ?_⟩
    rw [onIntegers, decide_eq_false nonzero, floorDiv?_eq_fit? left right nonzero]
    rfl
  | pow =>
    obtain ⟨count, rfl⟩ := Int.eq_ofNat_of_zero_le (exponent rfl)
    refine ⟨a ^ count, ⟨count, Int.cast_natCast count, Int.cast_pow a count⟩, ?_⟩
    rw [onIntegers, if_pos (Int.natCast_nonneg count), Int.toNat_natCast,
      power?_eq_fit? left count]
  | div => exact absurd rfl operator.1
  | mod => exact absurd rfl operator.2

/-- Sums, differences, products, quotients rounded down and powers are exact, and overflow is
reported if and only if they are out of range. -/
theorem evaluate_integers (takes : lookup.Takes n (.integer a) (.integer b))
    (operator : lookup.operator ≠ .div ∧ lookup.operator ≠ .mod)
    (divisor : lookup.operator = .floorDiv → b ≠ 0) (exponent : lookup.operator = .pow → 0 ≤ b) :
    ∃ z : Int, lookup.operator.Exact a b z ∧
      (Word.holds z = true → lookup.evaluate (.number n) = .ok (.number (.ofInt z))) ∧
      (lookup.evaluate (.number n) = .error (.arithmetic lookup.operator .integerOverflow) ↔
        Word.holds z = false) := by
  obtain ⟨left, right⟩ := takes.words
  obtain ⟨z, exact, computed⟩ := exists_onIntegers left right operator divisor exponent
  refine ⟨z, exact, ?_⟩
  rw [takes.evaluate_eq_written computed]
  cases inRange : Word.holds z with
  | true =>
    rw [Word.fit?_of_holds inRange]
    simp [writtenInteger]
  | false =>
    rw [Word.fit?_eq_none_iff.mpr inRange]
    simp [writtenInteger]

/-- The least word is a power, though its opposite is none. -/
theorem evaluate_integers_least :
    evaluate ⟨.pow, " +21", false⟩ (.number (.ofInt (-8))) = .ok (.number (.ofInt Word.least)) ∧
      evaluate ⟨.pow, "8", true⟩ (.number (.ofInt 21)) =
        .error (.arithmetic .pow .integerOverflow) := by
  have negative : Takes ⟨.pow, " +21", false⟩ (.ofInt (-8)) (.integer (-8)) (.integer 21) :=
    ⟨_, _, by decide, by decide, rfl⟩
  have positive : Takes ⟨.pow, "8", true⟩ (.ofInt 21) (.integer 8) (.integer 21) :=
    ⟨_, _, by decide, by decide, rfl⟩
  obtain ⟨z, ⟨count, exponent, power⟩, returned, -⟩ :=
    evaluate_integers negative (by decide) (by decide) (by decide)
  obtain ⟨z', ⟨count', exponent', power'⟩, -, refused⟩ :=
    evaluate_integers positive (by decide) (by decide) (by decide)
  obtain rfl : count = 21 := by exact_mod_cast exponent.symm
  obtain rfl : count' = 21 := by exact_mod_cast exponent'.symm
  obtain rfl : z = Word.least := by exact_mod_cast power
  obtain rfl : z' = 8 ^ 21 := by exact_mod_cast power'
  exact ⟨returned rfl, refused.mpr rfl⟩

/-! ### Division -/

theorem Takes.evaluate_mod (takes : lookup.Takes n (.integer a) (.integer b))
    (operator : lookup.operator = .mod) (nonzero : b ≠ 0) :
    lookup.evaluate (.number n) = writtenInteger .mod (floorMod? a b) := by
  rw [← operator]
  refine takes.evaluate_eq_written ?_
  rw [operator, onIntegers, decide_eq_false nonzero]
  rfl

theorem Takes.evaluate_floorDiv (takes : lookup.Takes n (.integer a) (.integer b))
    (operator : lookup.operator = .floorDiv) (nonzero : b ≠ 0) :
    lookup.evaluate (.number n) = writtenInteger .floorDiv (floorDiv? a b) := by
  rw [← operator]
  refine takes.evaluate_eq_written ?_
  rw [operator, onIntegers, decide_eq_false nonzero]
  rfl

/-- The remainder of the division law, for all words but one pair. -/
theorem evaluate_remainder (takes : lookup.Takes n (.integer a) (.integer b))
    (operator : lookup.operator = .mod) (nonzero : b ≠ 0) :
    (¬ (a = Word.least ∧ b = -1) →
      ∃ r : Int, lookup.evaluate (.number n) = .ok (.number (.ofInt r)) ∧
        FloorDivision a b ⌊(a / b : ℚ)⌋ r) ∧
    (lookup.evaluate (.number n) = .error (.arithmetic .mod .integerOverflow) ↔
      a = Word.least ∧ b = -1) := by
  obtain ⟨left, right⟩ := takes.words
  rw [takes.evaluate_mod operator nonzero]
  rcases floorDivision_cases left right nonzero with
    ⟨irregular, -, refused⟩ | ⟨regular, q, r, -, remainder, -, law⟩
  · rw [refused]
    exact ⟨absurd irregular, iff_of_true rfl irregular⟩
  · rw [remainder]
    refine ⟨fun _ => ⟨r, rfl, law.quotient ▸ law⟩, iff_of_false ?_ regular⟩
    simp [writtenInteger]

theorem evaluate_remainder_moved :
    evaluate ⟨.mod, "3", false⟩ (.number (.ofInt Word.least)) = .ok (.number (.ofInt 1)) := by
  have takes : Takes ⟨.mod, "3", false⟩ (.ofInt Word.least) (.integer Word.least) (.integer 3) :=
    ⟨_, _, by decide, by decide, rfl⟩
  obtain ⟨r, returned, law⟩ := (evaluate_remainder takes rfl (by decide)).1 (by decide)
  have down : ⌊(Word.least / (3 : Int) : ℚ)⌋ = -3074457345618258603 := by
    rw [Int.floor_eq_iff]
    norm_num [Word.least]
  have exact := law.exact
  rw [down] at exact
  have exact' : Word.least = 3 * -3074457345618258603 + r := by exact_mod_cast exact
  obtain rfl : r = 1 := by
    rw [Word.least] at exact'
    omega
  exact returned

/-- Here the remainder is zero, and overflow is reported all the same. -/
theorem evaluate_remainder_least :
    Takes ⟨.mod, "-1", false⟩ (.ofInt Word.least) (.integer Word.least) (.integer (-1)) ∧
      FloorDivision Word.least (-1 : Int) ⌊(Word.least / (-1 : Int) : ℚ)⌋ 0 ∧
      evaluate ⟨.mod, "-1", false⟩ (.number (.ofInt Word.least)) =
        .error (.arithmetic .mod .integerOverflow) := by
  refine ⟨⟨_, _, by decide, by decide, rfl⟩, ?_, by decide⟩
  rw [floorDivision_iff (by norm_num), floorRemainder, floor_least_div]
  exact ⟨rfl, by push_cast; ring⟩

/-- Quotient and remainder of the same words belong together, whichever way the words come to the
two lookups. -/
theorem evaluate_quotient_remainder {quotient remainder : Arithmetic} {m : Numeral}
    (divides : quotient.Takes m (.integer a) (.integer b))
    (leaves : remainder.Takes n (.integer a) (.integer b))
    (operators : quotient.operator = .floorDiv ∧ remainder.operator = .mod) (nonzero : b ≠ 0) :
    (∃ q r : Int, quotient.evaluate (.number m) = .ok (.number (.ofInt q)) ∧
      remainder.evaluate (.number n) = .ok (.number (.ofInt r)) ∧ FloorDivision a b q r) ∨
    (a = Word.least ∧ b = -1) ∧
      quotient.evaluate (.number m) = .error (.arithmetic .floorDiv .integerOverflow) ∧
      remainder.evaluate (.number n) = .error (.arithmetic .mod .integerOverflow) := by
  obtain ⟨left, right⟩ := divides.words
  rw [divides.evaluate_floorDiv operators.1 nonzero, leaves.evaluate_mod operators.2 nonzero]
  rcases floorDivision_cases left right nonzero with
    ⟨irregular, noQuotient, noRemainder⟩ | ⟨-, q, r, quotient, remainder, -, law⟩
  · rw [noQuotient, noRemainder]
    exact .inr ⟨irregular, rfl, rfl⟩
  · rw [quotient, remainder]
    exact .inl ⟨q, r, rfl, rfl, law⟩

theorem evaluate_quotient_remainder_ends :
    ∃ q r : Int, evaluate ⟨.floorDiv, "9223372036854775807", false⟩ (.number (.ofInt Word.least)) =
        .ok (.number (.ofInt q)) ∧
      evaluate ⟨.mod, " -9223372036854775808", true⟩ (.number (.ofInt Word.greatest)) =
        .ok (.number (.ofInt r)) ∧
      FloorDivision Word.least Word.greatest q r := by
  have divides : Takes ⟨.floorDiv, "9223372036854775807", false⟩ (.ofInt Word.least)
      (.integer Word.least) (.integer Word.greatest) :=
    ⟨_, _, by decide, by decide, rfl⟩
  have leaves : Takes ⟨.mod, " -9223372036854775808", true⟩ (.ofInt Word.greatest)
      (.integer Word.least) (.integer Word.greatest) :=
    ⟨_, _, by decide, by decide, rfl⟩
  rcases evaluate_quotient_remainder divides leaves ⟨rfl, rfl⟩ (by decide) with
    both | ⟨⟨-, irregular⟩, -⟩
  · exact both
  · exact absurd irregular (by decide)

end Reshape.Arithmetic
