import Reshape.Proofs.Lookup.Decimals
import Reshape.Proofs.Lookup.Integers
import Reshape.Proofs.Number.Decimal.Integers

/-!
Integer literals in arithmetic. Those of a word are integers and stay so. The larger ones of 64 bits
are taken for decimals: their results are exact as well, but have a zero after the point.
-/

namespace Reshape.Arithmetic

variable {lookup : Arithmetic} {n : Numeral} {a b : Int} {x y : Decimal} {op : Operator}

/-! ### Words -/

theorem takes_words (literal : n.integer? = some a) (inRange : Word.holds a = true)
    (operand : Word.read? (Text.trim lookup.operand) = some b) (direct : lookup.reverse = false) :
    lookup.Takes n (.integer a) (.integer b) := by
  have value : Word.ofNumeral? n = some a := by
    rw [Word.ofNumeral?, literal, Option.bind_some, Word.fit?_of_holds inRange]
  refine takes_integers_iff.mpr ⟨a, b, value, operand, ?_⟩
  rw [direct]
  rfl

theorem Takes.evaluate_integer (takes : lookup.Takes n (.integer a) (.integer b))
    (operator : lookup.operator ≠ .div)
    (divisor : lookup.operator = .floorDiv ∨ lookup.operator = .mod → b ≠ 0)
    (exponent : lookup.operator = .pow → 0 ≤ b) :
    ∃ z : Int, lookup.operator.Exact a b z ∧
      (lookup.evaluate (.number n) = .ok (.number (.ofInt z)) ∨
        lookup.evaluate (.number n) = .error (.arithmetic lookup.operator .integerOverflow) ∧
          (Word.holds z = false ∨ lookup.operator = .mod ∧ a = Word.least ∧ b = -1)) := by
  obtain ⟨left, right⟩ := takes.words
  by_cases remainder : lookup.operator = .mod
  · have nonzero := divisor (.inr remainder)
    have nonzero' : (b : ℚ) ≠ 0 := by exact_mod_cast nonzero
    rw [remainder, takes.evaluate_mod remainder nonzero]
    refine ⟨_, ⟨nonzero', (Decimal.floorRemainder_intCast a b).symm⟩, ?_⟩
    rcases floorDivision_cases left right nonzero with
      ⟨irregular, -, refused⟩ | ⟨-, q, r, -, found, -, law⟩
    · rw [refused]
      exact .inr ⟨rfl, .inr ⟨rfl, irregular⟩⟩
    · have same := ((floorDivision_iff nonzero').mp law).2
      rw [Decimal.floorRemainder_intCast] at same
      rw [found, ← Int.cast_injective same]
      exact .inl rfl
  · obtain ⟨z, exact, computed⟩ := exists_onIntegers left right ⟨operator, remainder⟩
      (fun floor => divisor (.inl floor)) exponent
    refine ⟨z, exact, ?_⟩
    rw [takes.evaluate_eq_written computed]
    cases inRange : Word.holds z with
    | true =>
      rw [Word.fit?_of_holds inRange]
      exact .inl rfl
    | false =>
      rw [Word.fit?_eq_none_iff.mpr inRange]
      exact .inr ⟨rfl, .inl rfl⟩

/-! ### Decimals -/

theorem takesDecimals_of_literal (literal : n.integer? = some a) (outside : Word.holds a = false)
    (size : a.natAbs < Decimal.limit)
    (operand : Word.read? (Text.trim lookup.operand) = some b) (direct : lookup.reverse = false) :
    ∃ x y, lookup.TakesDecimals n x y ∧ x.value = a ∧ y.value = b := by
  obtain ⟨m, read, word⟩ := Option.bind_eq_some_iff.mp operand
  obtain ⟨i, operandLiteral, fits⟩ := Option.bind_eq_some_iff.mp word
  obtain ⟨inRange, rfl⟩ := Word.fit?_eq_some_iff.mp fits
  have operandSize : i.natAbs < Decimal.limit := by
    rw [Word.holds_iff, Word.least, Word.greatest] at inRange
    rw [Decimal.limit]
    omega
  obtain ⟨x, known, left⟩ := Decimal.exists_ofPlain? literal size
  obtain ⟨y, taken, right⟩ := Decimal.exists_ofPlain? operandLiteral operandSize
  refine ⟨x, y, ⟨x, y, ?_, ?_, by rw [direct]; rfl⟩, left, right⟩
  · have noWord : Word.ofNumeral? n = none := by
      rw [Word.ofNumeral?, literal, Option.bind_some, Word.fit?_eq_none_iff.mpr outside]
    rw [Quantity.ofNumeral?, noWord, known]
  · unfold operandLike
    simp only [read, Option.bind_some, taken, Option.some_or, Option.map_some]

/-- The room is for quotients rounded down. -/
theorem exists_onDecimals (left : x.value = a) (right : y.value = b)
    (room : a.natAbs + b.natAbs ≤ Decimal.limit) (inRange : Word.holds b = true)
    (operator : op ≠ .div) (divisor : op = .floorDiv ∨ op = .mod → b ≠ 0)
    (exponent : op = .pow → 0 ≤ b) :
    ∃ (z : Int) (z? : Option Decimal), op.Exact a b z ∧ Decimal.IsInteger z z? ∧
      onDecimals op x y = .decimal <$> orFault .decimalOverflow z? := by
  have isZero : y.isZero = decide (b = 0) := by
    rw [Decimal.isZero_eq, right]
    simp
  cases op with
  | add => exact ⟨a + b, _, Int.cast_add a b, Decimal.isInteger_add? left right, rfl⟩
  | sub => exact ⟨a - b, _, Int.cast_sub a b, Decimal.isInteger_sub? left right, rfl⟩
  | mul => exact ⟨a * b, _, Int.cast_mul a b, Decimal.isInteger_mul? left right, rfl⟩
  | div => exact absurd rfl operator
  | floorDiv =>
    have nonzero := divisor (.inl rfl)
    refine ⟨_, _, ⟨by exact_mod_cast nonzero, rfl⟩,
      Decimal.isInteger_floorDiv? left right nonzero room, ?_⟩
    rw [onDecimals, isZero, decide_eq_false nonzero]
    rfl
  | mod =>
    have nonzero := divisor (.inr rfl)
    refine ⟨_, _, ⟨by exact_mod_cast nonzero, (Decimal.floorRemainder_intCast a b).symm⟩,
      Decimal.isInteger_floorMod? left right nonzero, ?_⟩
    rw [onDecimals, isZero, decide_eq_false nonzero]
    rfl
  | pow =>
    obtain ⟨count, rfl⟩ := Int.eq_ofNat_of_zero_le (exponent rfl)
    refine ⟨a ^ count, _, ⟨count, Int.cast_natCast count, Int.cast_pow a count⟩,
      Decimal.isInteger_pow? left count, ?_⟩
    rw [onDecimals, Decimal.integer?_of_value right, Option.bind_some, Word.fit?_of_holds inRange]

theorem written_of_isInteger {z : Int} {z? : Option Decimal} (integral : Decimal.IsInteger z z?) :
    written op z? = if z.natAbs < Decimal.limit
      then .ok (.number { Numeral.ofInt z with fraction := some [Digit.zero] })
      else .error (.arithmetic op .decimalOverflow) := by
  cases z? with
  | none => rw [if_neg (not_lt.mpr integral), written]
  | some d =>
    rw [if_pos (Decimal.representable_intCast_iff.mp ⟨d, integral⟩), written,
      Decimal.toNumeral_of_intCast integral]

theorem evaluate_decimal_literal (literal : n.integer? = some a) (outside : Word.holds a = false)
    (size : a.natAbs ≤ 18446744073709551615)
    (operand : Word.read? (Text.trim lookup.operand) = some b) (direct : lookup.reverse = false)
    (operator : lookup.operator ≠ .div)
    (divisor : lookup.operator = .floorDiv ∨ lookup.operator = .mod → b ≠ 0)
    (exponent : lookup.operator = .pow → 0 ≤ b) :
    ∃ z : Int, lookup.operator.Exact a b z ∧
      lookup.evaluate (.number n) = if z.natAbs < Decimal.limit
        then .ok (.number { Numeral.ofInt z with fraction := some [Digit.zero] })
        else .error (.arithmetic lookup.operator .decimalOverflow) := by
  have inRange := Word.holds_of_read? operand
  have room : a.natAbs + b.natAbs ≤ Decimal.limit := by
    rw [Word.holds_iff, Word.least, Word.greatest] at inRange
    rw [Decimal.limit]
    omega
  have size' : a.natAbs < Decimal.limit := size.trans_lt (by decide)
  obtain ⟨x, y, takes, left, right⟩ :=
    takesDecimals_of_literal literal outside size' operand direct
  obtain ⟨z, z?, exact, integral, computed⟩ :=
    exists_onDecimals left right room inRange operator divisor exponent
  exact ⟨z, exact, by rw [takes.evaluate_eq_written computed, written_of_isInteger integral]⟩

/-! ### Literals of 64 bits -/

/-- What an integer literal of 64 bits and a word give: the exact integer, or overflow is reported.
The result of a word is an integer literal again, and that of a larger one has a zero after the
point, like a decimal. -/
theorem evaluate_literals (literal : n.integer? = some a)
    (bits : Word.least ≤ a ∧ a ≤ 18446744073709551615)
    (operand : Word.read? (Text.trim lookup.operand) = some b) (direct : lookup.reverse = false)
    (operator : lookup.operator ≠ .div)
    (divisor : lookup.operator = .floorDiv ∨ lookup.operator = .mod → b ≠ 0)
    (exponent : lookup.operator = .pow → 0 ≤ b) :
    ∃ z : Int, lookup.operator.Exact a b z ∧
      (Word.holds a = true →
        lookup.evaluate (.number n) = .ok (.number (.ofInt z)) ∨
          lookup.evaluate (.number n) = .error (.arithmetic lookup.operator .integerOverflow) ∧
            (Word.holds z = false ∨ lookup.operator = .mod ∧ a = Word.least ∧ b = -1)) ∧
      (Word.holds a = false →
        lookup.evaluate (.number n) = if z.natAbs < Decimal.limit
          then .ok (.number { Numeral.ofInt z with fraction := some [Digit.zero] })
          else .error (.arithmetic lookup.operator .decimalOverflow)) := by
  by_cases word : Word.holds a = true
  · obtain ⟨z, exact, result⟩ :=
      (takes_words literal word operand direct).evaluate_integer operator divisor exponent
    refine ⟨z, exact, fun _ => result, fun outside => ?_⟩
    rw [word] at outside
    cases outside
  · have outside : Word.holds a = false := by simpa using word
    have size : a.natAbs ≤ 18446744073709551615 := by
      rw [Word.least] at bits
      omega
    obtain ⟨z, exact, result⟩ :=
      evaluate_decimal_literal literal outside size operand direct operator divisor exponent
    exact ⟨z, exact, fun inRange => absurd inRange word, fun _ => result⟩

/-- The remainder of the largest literal. -/
theorem evaluate_literals_greatest :
    evaluate ⟨.mod, (Numeral.ofInt 10).text, false⟩ (.number (.ofInt 18446744073709551615)) =
      .ok (.number { Numeral.ofInt 5 with fraction := some [Digit.zero] }) := by
  have operand : Word.read? (Text.trim (mk .mod (Numeral.ofInt 10).text false).operand) = some 10 :=
    Word.read?_text (by decide)
  obtain ⟨z, ⟨-, exact⟩, -, result⟩ :=
    evaluate_literals (Numeral.integer?_ofInt 18446744073709551615) (by decide) operand rfl
      (by decide) (by decide) (by decide)
  have floor : ⌊((18446744073709551615 : Int) / (10 : Int) : ℚ)⌋ = 1844674407370955161 := by
    rw [Int.floor_eq_iff]
    norm_num
  rw [floorRemainder, floor] at exact
  obtain rfl : z = 5 := by
    have exact' : z = 18446744073709551615 - 10 * 1844674407370955161 := by exact_mod_cast exact
    omega
  exact result (by decide)

/-- One more than the greatest word is an integer of 64 bits, and with one added it has a point. -/
theorem evaluate_literals_pointed :
    (Numeral.ofInt 9223372036854775808).integer? = some 9223372036854775808 ∧
      ∃ m : Numeral,
        evaluate ⟨.add, (Numeral.ofInt 1).text, false⟩ (.number (.ofInt 9223372036854775808)) =
          .ok (.number m) ∧
        m = { Numeral.ofInt 9223372036854775809 with fraction := some [Digit.zero] } ∧
        m.isInteger = false := by
  have literal := Numeral.integer?_ofInt 9223372036854775808
  have operand : Word.read? (Text.trim (mk .add (Numeral.ofInt 1).text false).operand) = some 1 :=
    Word.read?_text (by decide)
  obtain ⟨z, exact, result⟩ :=
    evaluate_decimal_literal literal (by decide) (by decide) operand rfl (by decide) (by decide)
      (by decide)
  obtain rfl : z = 9223372036854775809 := by
    have exact' : (z : ℚ) = (9223372036854775808 : Int) + (1 : Int) := exact
    exact_mod_cast exact'
  exact ⟨literal, _, result, rfl, rfl⟩

end Reshape.Arithmetic
