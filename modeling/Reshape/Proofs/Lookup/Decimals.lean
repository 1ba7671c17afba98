import Mathlib.Tactic.NormNum
import Reshape.Json.Equality
import Reshape.Lookup.Cast
import Reshape.Proofs.Lookup.Arithmetic
import Reshape.Proofs.Number.Decimal.Division
import Reshape.Proofs.Number.Decimal.Power
import Reshape.Proofs.Number.Decimal.Text
import Reshape.Proofs.Number.Word

/-!
Lookups on decimals: what the arithmetic lookup keeps of the law of division, that all its other
results are exact where a decimal can be, and how it reads the numbers that it and the cast lookup
write.
-/

namespace Reshape

/-! ### Division -/

namespace Arithmetic

variable {lookup : Arithmetic} {n : Numeral} {a b d : Decimal}

/-- The lookup takes a number and its operand for the decimals `a` and `b`, in this order. -/
def TakesDecimals (lookup : Arithmetic) (n : Numeral) (a b : Decimal) : Prop :=
  ∃ x y, Quantity.ofNumeral? n = some (.decimal x) ∧
    lookup.operandLike (.decimal x) = .ok (.decimal y) ∧
    (a, b) = if lookup.reverse then (y, x) else (x, y)

theorem operandLike_operator (lookup : Arithmetic) (op : Operator) (value : Quantity) :
    { lookup with operator := op }.operandLike value = lookup.operandLike value := rfl

theorem TakesDecimals.operator (takes : lookup.TakesDecimals n a b) (op : Operator) :
    { lookup with operator := op }.TakesDecimals n a b := by
  obtain ⟨x, y, value, operand, sides⟩ := takes
  exact ⟨x, y, value, (operandLike_operator lookup op _).trans operand, sides⟩

theorem TakesDecimals.takes (takes : lookup.TakesDecimals n a b) :
    lookup.Takes n (.decimal a) (.decimal b) := by
  obtain ⟨x, y, value, operand, sides⟩ := takes
  refine ⟨_, _, value, operand, ?_⟩
  split at sides
  · next reversed =>
    cases sides
    rw [if_pos reversed]
  · next direct =>
    cases sides
    rw [if_neg direct]

/-- A computed decimal as the result of a lookup. -/
def written (op : Operator) : Option Decimal → Except LookupError Json
  | some d => .ok (.number d.toNumeral)
  | none => .error (.arithmetic op .decimalOverflow)

theorem TakesDecimals.evaluate_eq_written {x? : Option Decimal}
    (takes : lookup.TakesDecimals n a b)
    (computed : onDecimals lookup.operator a b = .decimal <$> orFault .decimalOverflow x?) :
    lookup.evaluate (.number n) = written lookup.operator x? := by
  cases x? with
  | none => exact takes.takes.evaluate_eq_error computed
  | some d => exact takes.takes.evaluate_eq_ok computed rfl

theorem TakesDecimals.evaluate_mod (takes : lookup.TakesDecimals n a b) (nonzero : b.value ≠ 0) :
    { lookup with operator := .mod }.evaluate (.number n) = written .mod (a.floorMod? b) := by
  refine (takes.operator .mod).evaluate_eq_written ?_
  rw [onDecimals, Decimal.isZero_eq, decide_eq_false nonzero]
  rfl

theorem TakesDecimals.evaluate_floorDiv (takes : lookup.TakesDecimals n a b)
    (nonzero : b.value ≠ 0) :
    { lookup with operator := .floorDiv }.evaluate (.number n) =
      written .floorDiv (a.floorDiv? b) := by
  refine (takes.operator .floorDiv).evaluate_eq_written ?_
  rw [onDecimals, Decimal.isZero_eq, decide_eq_false nonzero]
  rfl

/-- What `%` and `//` give for decimals. The remainder always comes out, with the divisor's sign and
up to half a unit of its last digit; the law of division holds wherever no digit is lost, and so for
all operands that fit together on a common scale. -/
theorem evaluate_division (takes : lookup.TakesDecimals n a b) (nonzero : b.value ≠ 0) :
    ∃ r : Decimal,
      { lookup with operator := .mod }.evaluate (.number n) = .ok (.number r.toNumeral) ∧
      a.RoundedRemainder b r ∧
      ({ lookup with operator := .floorDiv }.evaluate (.number n) =
          .error (.arithmetic .floorDiv .decimalOverflow) ∨
        ∃ q : Decimal,
          { lookup with operator := .floorDiv }.evaluate (.number n) =
            .ok (.number q.toNumeral) ∧
          a.RoundedQuotient b q r) ∧
      ((a.coefficientAt (max a.scale b.scale)).natAbs +
          (b.coefficientAt (max a.scale b.scale)).natAbs ≤ Decimal.limit →
        ∃ q : Decimal,
          { lookup with operator := .floorDiv }.evaluate (.number n) =
            .ok (.number q.toNumeral) ∧
          FloorDivision a.value b.value q.value r.value) := by
  obtain ⟨r, found, remainder⟩ := Decimal.exists_roundedRemainder a nonzero
  rw [takes.evaluate_mod nonzero, takes.evaluate_floorDiv nonzero, found]
  refine ⟨r, rfl, remainder, ?_, fun room => ?_⟩
  · cases quotient : a.floorDiv? b with
    | none => exact .inl rfl
    | some q => exact .inr ⟨q, rfl, Decimal.roundedQuotient nonzero found quotient⟩
  · obtain ⟨q, quotient, law⟩ := Decimal.exists_floorDivision nonzero (le_max_left ..)
      (le_max_right ..) (max_le a.scale_le b.scale_le) room found
    exact ⟨q, by rw [quotient]; rfl, law⟩

theorem evaluate_division_negative :
    ∃ q r : Decimal,
      evaluate ⟨.floorDiv, "0.3", false⟩ (.number ⟨true, [7], some [4], none⟩) =
        .ok (.number q.toNumeral) ∧
      evaluate ⟨.mod, "0.3", false⟩ (.number ⟨true, [7], some [4], none⟩) =
        .ok (.number r.toNumeral) ∧
      FloorDivision (-74 / 10) (3 / 10) q.value r.value := by
  have takes : TakesDecimals ⟨.mod, "0.3", false⟩ ⟨true, [7], some [4], none⟩
      ⟨-74, 1, by decide, by decide⟩ ⟨3, 1, by decide, by decide⟩ :=
    ⟨_, _, by decide, by decide, rfl⟩
  obtain ⟨r, mod, -, -, room⟩ := evaluate_division takes (by norm_num [Decimal.value])
  obtain ⟨q, floorDiv, law⟩ := room (by decide)
  exact ⟨q, r, floorDiv, mod, by simpa [Decimal.value] using law⟩

/-- Here the remainder is right and the quotient is not: 0.06 less than the number takes one digit
more than it has. -/
theorem evaluate_division_lossy :
    ∃ a b q r : Decimal,
      TakesDecimals ⟨.floorDiv, "0.11", false⟩ (.ofInt 8690000000000000000000000006) a b ∧
      b.value ≠ 0 ∧
      evaluate ⟨.floorDiv, "0.11", false⟩ (.number (.ofInt 8690000000000000000000000006)) =
        .ok (.number q.toNumeral) ∧
      evaluate ⟨.mod, "0.11", false⟩ (.number (.ofInt 8690000000000000000000000006)) =
        .ok (.number r.toNumeral) ∧
      ¬ FloorDivision a.value b.value q.value r.value := by
  refine ⟨⟨8690000000000000000000000006, 0, by decide, by decide⟩, ⟨11, 2, by decide, by decide⟩,
    ⟨79000000000000000000000000055, 0, by decide, by decide⟩, ⟨6, 2, by decide, by decide⟩,
    ⟨_, _, by decide +kernel, by decide +kernel, rfl⟩, ?_, by decide +kernel, by decide +kernel, ?_⟩
  · norm_num [Decimal.value]
  · intro law
    have exact := law.exact
    norm_num [Decimal.value] at exact

/-! ### Exact results -/

theorem onDecimals_exact {op : Operator} {q : ℚ} (operator : op ≠ .floorDiv)
    (exponent : op = .pow → b.value < 1024) (exact : op.Exact a.value b.value q)
    (representable : Decimal.Representable q) :
    ∃ d, onDecimals op a b = .ok (.decimal d) ∧ d.value = q := by
  cases op with
  | add =>
    obtain rfl : q = a.value + b.value := exact
    obtain ⟨d, sum, same⟩ := (a.add?_rounds b).exact representable
    exact ⟨d, by rw [onDecimals, sum]; rfl, same⟩
  | sub =>
    obtain rfl : q = a.value - b.value := exact
    obtain ⟨d, difference, same⟩ := (a.sub?_rounds b).exact representable
    exact ⟨d, by rw [onDecimals, difference]; rfl, same⟩
  | mul =>
    obtain rfl : q = a.value * b.value := exact
    obtain ⟨d, product, same⟩ := (a.mul?_rounds b).exact representable
    exact ⟨d, by rw [onDecimals, product]; rfl, same⟩
  | div =>
    obtain ⟨nonzero, rfl⟩ := exact
    obtain ⟨d, quotient, same⟩ := (Decimal.div?_rounds a nonzero).exact representable
    exact ⟨d, by rw [onDecimals, Decimal.isZero_eq, decide_eq_false nonzero, quotient]; rfl, same⟩
  | mod =>
    obtain ⟨nonzero, rfl⟩ := exact
    obtain ⟨d, remainder, rounded⟩ := Decimal.exists_roundedRemainder a nonzero
    exact ⟨d, by rw [onDecimals, Decimal.isZero_eq, decide_eq_false nonzero, remainder]; rfl,
      rounded.exact_iff.mpr representable⟩
  | pow =>
    -- The exponent is read as a word and not as a float, so the power is one by squaring.
    obtain ⟨count, integral, rfl⟩ := exact
    have small : (count : ℚ) < 1024 := integral ▸ exponent rfl
    have small' : count < 1024 := by exact_mod_cast small
    have inRange : Word.holds count = true := by
      rw [Word.holds_iff, Word.least, Word.greatest]
      omega
    have integer : b.integer? = some (count : Int) :=
      Decimal.integer?_of_value (by exact_mod_cast integral)
    obtain ⟨d, power, same⟩ := Decimal.exists_pow? representable
    refine ⟨d, ?_, same⟩
    rw [onDecimals, integer, Option.bind_some, Word.fit?_of_holds inRange]
    simp only [power]
    rfl
  | floorDiv => exact absurd rfl operator

/-- Wherever a decimal denotes the exact result, it is what comes out; but for quotients rounded
down. -/
theorem evaluate_representable {q : ℚ} (takes : lookup.TakesDecimals n a b)
    (operator : lookup.operator ≠ .floorDiv) (exponent : lookup.operator = .pow → b.value < 1024)
    (exact : lookup.operator.Exact a.value b.value q) (representable : Decimal.Representable q) :
    ∃ m : Numeral, lookup.evaluate (.number n) = .ok (.number m) ∧ m.Writes q := by
  obtain ⟨d, computed, rfl⟩ := onDecimals_exact operator exponent exact representable
  exact ⟨d.toNumeral, takes.takes.evaluate_eq_ok computed rfl, d.writes_toNumeral⟩

/-- Powers up to the last digit of a decimal, one of a fraction and one with the base as operand. -/
theorem evaluate_representable_powers :
    (∃ m : Numeral, evaluate ⟨.pow, "9", false⟩ (.number ⟨true, [0], some [0, 0, 1, 0], none⟩) =
        .ok (.number m) ∧ m.Writes (-1 / 10 ^ 27)) ∧
      ∃ m : Numeral, evaluate ⟨.pow, "-100.0", true⟩ (.number ⟨false, [1, 4], some [0], none⟩) =
        .ok (.number m) ∧ m.Writes (10 ^ 28) := by
  have fraction : TakesDecimals ⟨.pow, "9", false⟩ ⟨true, [0], some [0, 0, 1, 0], none⟩
      ⟨-10, 4, by decide, by decide⟩ ⟨9, 0, by decide, by decide⟩ :=
    ⟨_, _, by decide, by decide, rfl⟩
  have whole : TakesDecimals ⟨.pow, "-100.0", true⟩ ⟨false, [1, 4], some [0], none⟩
      ⟨-1000, 1, by decide, by decide⟩ ⟨140, 1, by decide, by decide⟩ :=
    ⟨_, _, by decide, by decide, rfl⟩
  constructor
  · refine evaluate_representable fraction (by decide) (fun _ => by norm_num [Decimal.value]) ?_ ?_
    · exact ⟨9, by norm_num [Decimal.value], by norm_num [Decimal.value]⟩
    · exact ⟨⟨-1, 27, by decide, by decide⟩, by norm_num [Decimal.value]⟩
  · refine evaluate_representable whole (by decide) (fun _ => by norm_num [Decimal.value]) ?_ ?_
    · exact ⟨14, by norm_num [Decimal.value], by norm_num [Decimal.value]⟩
    · exact ⟨⟨10000000000000000000000000000, 0, by decide, by decide⟩, by norm_num [Decimal.value]⟩

/-! ### Reading back -/

/-- `m` is the text of the decimal `d` as JSON, and arithmetic takes it for a decimal again; but for
a float if the decimal is too wide for the digit after its point. -/
structure Rereads (d : Decimal) (m : Numeral) : Prop where
  text : Numeral.readJson? m.toChars = some m
  value : m.value = d.value
  decimal : ¬ d.IsWide → ∃ d', Quantity.ofNumeral? m = some (.decimal d') ∧ d'.value = d.value
  float : d.IsWide → ∃ x, Quantity.ofNumeral? m = some (.float x)

theorem rereads_pointed {whole fraction : List Digit} {negative : Bool}
    (leading : Numeral.Leading whole) (digits : d.HasDigits whole fraction)
    (value : (Numeral.pointed negative whole fraction).value = d.value) :
    Rereads d (Numeral.pointed negative whole fraction) := by
  have isDecimal := digits.isSome_ofPlain?_iff negative
  have word : Word.ofNumeral? (Numeral.pointed negative whole fraction) = none := rfl
  refine ⟨Numeral.readJson?_toChars (Numeral.isJson_pointed leading), value, ?_, ?_⟩
  · intro narrow
    obtain ⟨d', read⟩ := Option.isSome_iff_exists.mp (isDecimal.mpr narrow)
    obtain ⟨-, -, -, same⟩ := Decimal.ofPlain?_eq_some read
    exact ⟨d', by rw [Quantity.ofNumeral?, word, read], same.trans value⟩
  · intro wide
    have unread := Option.not_isSome_iff_eq_none.mp (mt isDecimal.mp (not_not_intro wide))
    have finite := digits.isFinite_ofNumeral negative
    rw [Quantity.ofNumeral?, word, unread, Binary64.finite?, if_pos finite]
    exact ⟨_, rfl⟩

theorem rereads_toNumeral (d : Decimal) : Rereads d d.toNumeral := by
  have value := d.value_toNumeral
  obtain ⟨whole, fraction, text, leading, digits⟩ := d.toNumeral_eq
  rw [text] at value ⊢
  exact rereads_pointed leading digits value

end Arithmetic

namespace Cast

variable {node : Json} {n : Numeral} {d : Decimal}

/-- The literal that a cast to a decimal reads. -/
def literal? : Json → Option Numeral
  | .number n => some n
  | .bool b => some (.ofInt b.toNat)
  | .string s => Numeral.read? (Text.trim s).toList
  | _ => none

theorem evaluate_decimal (literal : literal? node = some n) (plain : n.isPlain) :
    evaluate .decimal node = .ok (.number (decimalNumeral n)) := by
  cases node with
  | number _ => simp_all [literal?, evaluate, cast?, toDecimal?]
  | bool _ => simp_all [literal?, evaluate, cast?, toDecimal?]
  | string _ => simp_all [literal?, evaluate, cast?, toDecimal?]
  | null | array _ | object _ => cases literal

theorem decimalNumeral_eq (n : Numeral) :
    decimalNumeral n = .pointed n.negative (Numeral.stripped n.whole) n.fractionDigits := rfl

theorem toNat_stripped_append (n : Numeral) :
    Digit.toNat (Numeral.stripped n.whole ++ n.fractionDigits) = n.coefficient := by
  rw [Digit.toNat_append, Numeral.toNat_stripped, Numeral.coefficient, Digit.toNat_append]

theorem value_decimalNumeral (plain : n.isPlain) : (decimalNumeral n).value = n.value := by
  rw [decimalNumeral_eq, Numeral.value_pointed, toNat_stripped_append,
    Numeral.value_of_isPlain plain]

theorem rereads_decimalNumeral (read : Decimal.ofPlain? n = some d) :
    Arithmetic.Rereads d (decimalNumeral n) := by
  obtain ⟨plain, size, scale, value⟩ := Decimal.ofPlain?_eq_some read
  have digits : d.HasDigits (Numeral.stripped n.whole) n.fractionDigits :=
    ⟨0, scale.symm, by rw [toNat_stripped_append, size, pow_zero, Nat.mul_one]⟩
  have same := (value_decimalNumeral plain).trans value.symm
  rw [decimalNumeral_eq] at same ⊢
  exact Arithmetic.rereads_pointed (Numeral.leading_stripped n.whole) digits same

end Cast

/-- A decimal stays one from one step to the next, whether arithmetic computes it or a cast reads it
from a literal, but for the wide ones. -/
theorem decimals_reread (d : Decimal) :
    (∃ m, (Arithmetic.Quantity.decimal d).toNumeral? = some m ∧ Arithmetic.Rereads d m) ∧
    ∀ node n, Cast.literal? node = some n → Decimal.ofPlain? n = some d →
      ∃ m, Cast.evaluate .decimal node = .ok (.number m) ∧ Arithmetic.Rereads d m := by
  refine ⟨⟨_, rfl, Arithmetic.rereads_toNumeral d⟩, fun node n literal read => ?_⟩
  obtain ⟨plain, -⟩ := Decimal.ofPlain?_eq_some read
  exact ⟨_, Cast.evaluate_decimal literal plain, Cast.rereads_decimalNumeral read⟩

theorem decimals_reread_literals :
    (∃ m d, Cast.evaluate .decimal (.string " 7922816251426433759354395033.5") =
        .ok (.number m) ∧
      Arithmetic.Quantity.ofNumeral? m = some (.decimal d) ∧
      d.value = 79228162514264337593543950335 / 10) ∧
    ∃ m x, Cast.evaluate .decimal (.string "7922816251426433759354395034") =
        .ok (.number m) ∧
      Arithmetic.Quantity.ofNumeral? m = some (.float x) := by
  have narrow := (decimals_reread ⟨79228162514264337593543950335, 1, by decide, by decide⟩).2
    (.string " 7922816251426433759354395033.5")
    ⟨false, [7, 9, 2, 2, 8, 1, 6, 2, 5, 1, 4, 2, 6, 4, 3, 3, 7, 5, 9, 3, 5, 4, 3, 9, 5, 0, 3, 3],
      some [5], none⟩ (by decide) (by decide)
  have wide := (decimals_reread ⟨7922816251426433759354395034, 0, by decide, by decide⟩).2
    (.string "7922816251426433759354395034") (.ofInt 7922816251426433759354395034)
    (by decide) (by decide)
  obtain ⟨m, cast, rereads⟩ := narrow
  obtain ⟨d, read, value⟩ := rereads.decimal (by decide)
  obtain ⟨m', cast', rereads'⟩ := wide
  obtain ⟨x, read'⟩ := rereads'.float (by decide)
  exact ⟨⟨m, d, cast, read, by simpa [Decimal.value] using value⟩, m', x, cast', read'⟩

/-- The sum is written as `10000000000000000000000000001.0`, of 30 digits. -/
theorem sum_rereads_as_float :
    ∃ m x,
      Arithmetic.evaluate ⟨.add, "1", false⟩ (.number (.ofInt 10000000000000000000000000000)) =
        .ok (.number m) ∧
      m = Decimal.toNumeral ⟨10000000000000000000000000001, 0, by decide, by decide⟩ ∧
      Arithmetic.Quantity.ofNumeral? m = some (.float x) :=
  ⟨_, .finite false 4547473508864641 41, by decide, rfl, by decide⟩

end Reshape
