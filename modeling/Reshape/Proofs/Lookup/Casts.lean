import Reshape.Proofs.Chain.Direct
import Reshape.Proofs.Lookup.Decimals
import Reshape.Proofs.Number.Binary64.Reading
import Reshape.Proofs.Number.Binary64.Truncation
import Reshape.Proofs.Number.Literal

/-!
Casts of numbers. A cast to a decimal only spells a plain literal anew, digit by digit. Casts to an
integer and to a boolean go through the float nearest to the number, with its 53 bits and its range.
-/

namespace Reshape

/-! ### Decimals -/

namespace Numeral

/-- `m` is the plain literal `n` as JSON: the same number with the same sign and the same digits
after the point, a zero if there are none, and without superfluous zeros before it. -/
structure Respells (m n : Numeral) : Prop where
  text : readJson? m.toChars = some m
  value : m.value = n.value
  sign : m.negative = n.negative
  plain : m.isPlain
  whole : Leading m.whole
  fraction : m.fraction = some (if n.fractionDigits = [] then [Digit.zero] else n.fractionDigits)

end Numeral

namespace Cast

variable {node v : Json} {n : Numeral} {s : String}

theorem respells_decimalNumeral (plain : n.isPlain) : (decimalNumeral n).Respells n where
  text := Numeral.readJson?_toChars (Numeral.isJson_pointed (Numeral.leading_stripped n.whole))
  value := value_decimalNumeral plain
  sign := rfl
  plain := rfl
  whole := Numeral.leading_stripped n.whole
  fraction := by simp [decimalNumeral]

theorem decimalNumeral_decimalNumeral (n : Numeral) :
    decimalNumeral (decimalNumeral n) = decimalNumeral n := by
  have whole := Numeral.stripped_of_leading (Numeral.leading_stripped n.whole)
  rw [decimalNumeral_eq, decimalNumeral_eq n, Numeral.fractionDigits_pointed]
  simp only [Numeral.pointed, whole]
  split <;> simp_all

theorem evaluate_decimal_of_not_isPlain (powered : ¬ n.isPlain) :
    evaluate .decimal (.number n) = .ok (.number n) := by
  simp [evaluate, cast?, toDecimal?, powered]

/-- What is cast to a decimal: a plain literal, or a number with an exponent, which stays. -/
theorem evaluate_decimal_eq_ok (cast : evaluate .decimal node = .ok v) :
    (∃ n, literal? node = some n ∧ n.isPlain ∧ v = .number (decimalNumeral n)) ∨
      ∃ n : Numeral, ¬ n.isPlain ∧ node = .number n ∧ v = node := by
  cases node with
  | number n =>
    by_cases plain : n.isPlain
    · refine .inl ⟨n, rfl, plain, ?_⟩
      rw [evaluate_decimal rfl plain] at cast
      exact (Except.ok.inj cast).symm
    · refine .inr ⟨n, plain, rfl, ?_⟩
      rw [evaluate_decimal_of_not_isPlain plain] at cast
      exact (Except.ok.inj cast).symm
  | bool b =>
    have literal : literal? (.bool b) = some (.ofInt b.toNat) := rfl
    rw [evaluate_decimal literal rfl] at cast
    exact .inl ⟨_, literal, rfl, (Except.ok.inj cast).symm⟩
  | string s =>
    cases literal : literal? (.string s) with
    | none =>
      rw [literal?] at literal
      simp [evaluate, cast?, toDecimal?, literal] at cast
    | some n =>
      by_cases plain : n.isPlain
      · rw [evaluate_decimal literal plain] at cast
        exact .inl ⟨n, rfl, plain, (Except.ok.inj cast).symm⟩
      · rw [literal?] at literal
        simp [evaluate, cast?, toDecimal?, literal, plain] at cast
  | null | array _ | object _ => cases cast

theorem literal?_of_isLiteral (literal : n.IsLiteral (Text.trim s).toList) :
    literal? (.string s) = some n := literal.read?_eq

/-- A string is cast to a decimal if and only if it is a plain literal with blanks around it. The
result is that literal, or the given number in plain notation, as JSON; numbers with an exponent
stay. A second cast changes nothing. -/
theorem evaluate_decimal_exact :
    (∀ s, (∃ v, evaluate .decimal (.string s) = .ok v) ↔
      ∃ n : Numeral, n.IsLiteral (Text.trim s).toList) ∧
    (∀ s (n : Numeral), n.IsLiteral (Text.trim s).toList →
      ∃ m, evaluate .decimal (.string s) = .ok (.number m) ∧ m.Respells n) ∧
    (∀ n : Numeral, n.isPlain →
      ∃ m, evaluate .decimal (.number n) = .ok (.number m) ∧ m.Respells n) ∧
    (∀ n : Numeral, ¬ n.isPlain → evaluate .decimal (.number n) = .ok (.number n)) ∧
    ∀ node v, evaluate .decimal node = .ok v → evaluate .decimal v = .ok v := by
  have literals : ∀ s (n : Numeral), n.IsLiteral (Text.trim s).toList →
      ∃ m, evaluate .decimal (.string s) = .ok (.number m) ∧ m.Respells n := fun s n literal =>
    ⟨_, evaluate_decimal (literal?_of_isLiteral literal) literal.plain,
      respells_decimalNumeral literal.plain⟩
  refine ⟨fun s => ⟨?_, ?_⟩, literals, ?_, fun n => evaluate_decimal_of_not_isPlain, ?_⟩
  · rintro ⟨v, cast⟩
    rcases evaluate_decimal_eq_ok cast with ⟨n, literal, plain, -⟩ | ⟨n, -, other, -⟩
    · exact ⟨n, Numeral.isLiteral_of_read? literal plain⟩
    · cases other
  · rintro ⟨n, literal⟩
    obtain ⟨m, cast, -⟩ := literals s n literal
    exact ⟨_, cast⟩
  · exact fun n plain => ⟨_, evaluate_decimal rfl plain, respells_decimalNumeral plain⟩
  · intro node v cast
    rcases evaluate_decimal_eq_ok cast with ⟨n, -, -, rfl⟩ | ⟨n, powered, rfl, rfl⟩
    · rw [evaluate_decimal (n := decimalNumeral n) rfl rfl, decimalNumeral_decimalNumeral]
    · exact cast

/-- A sign, superfluous zeros, and a point with nothing after it. -/
theorem evaluate_decimal_exact_padded :
    ∃ m : Numeral, evaluate .decimal (.string " +007. ") = .ok (.number m) ∧
      m.Respells ⟨false, [0, 0, 7], some [], none⟩ ∧
      evaluate .decimal (.number m) = .ok (.number m) := by
  obtain ⟨-, literals, -, -, again⟩ := evaluate_decimal_exact
  have literal : Numeral.IsLiteral ⟨false, [0, 0, 7], some [], none⟩
      (Text.trim " +007. ").toList :=
    ⟨rfl, by decide, .inr ⟨rfl, by decide⟩⟩
  obtain ⟨m, cast, respells⟩ := literals _ _ literal
  exact ⟨m, cast, respells, again _ _ cast⟩

/-! ### Integers -/

/-- An integer as the result of a cast of a number. -/
def writtenWord (n : Numeral) : Option Int → Except LookupError Json
  | some i => .ok (.ofInt i)
  | none => .error (.conversion .int (describe (.number n)))

theorem writtenWord_eq_ok_iff {i? : Option Int} {i : Int} :
    writtenWord n i? = .ok (.ofInt i) ↔ i? = some i := by
  cases i? <;> simp [writtenWord, Json.ofInt, Numeral.ofInt_injective.eq_iff]

theorem evaluate_int_eq (fractional : n.isInteger = false) :
    evaluate .int (.number n) = writtenWord n (truncated? n) := by
  have noWord : isWordLiteral n = false := by simp [isWordLiteral, Numeral.integer?, fractional]
  simp only [evaluate, cast?, toInt?, noWord, Bool.false_eq_true, if_false]
  cases truncated? n <;> rfl

theorem evaluate_int_cases (fractional : n.isInteger = false) :
    Binary64.overflow ≤ |n.value| ∧ evaluate .int (.number n) = writtenWord n none ∨
      ∃ x, Binary64.Nearest n.value x ∧
        evaluate .int (.number n) = writtenWord n (Word.fit? (truncation x.value)) := by
  rw [evaluate_int_eq fractional]
  rcases Binary64.nearest_ofNumeral n with nearest | ⟨large, infinite⟩
  · refine .inr ⟨_, nearest, ?_⟩
    rw [truncated?, Binary64.truncate?_eq nearest.regular, Option.bind_some]
  · refine .inl ⟨large, ?_⟩
    rw [truncated?, infinite]
    rfl

theorem exists_nearest_of_le (fractional : n.isInteger = false) (small : |n.value| ≤ 2 ^ 63) :
    ∃ x, Binary64.Nearest n.value x ∧
      evaluate .int (.number n) = writtenWord n (Word.fit? (truncation x.value)) := by
  refine (evaluate_int_cases fractional).resolve_left fun large => ?_
  have bound : (2 : ℚ) ^ 63 < Binary64.overflow := by
    have power : (2 : ℚ) ^ (10 : Int) ≤ 2 ^ (970 : Int) :=
      zpow_le_zpow_right₀ one_le_two (by decide)
    calc (2 : ℚ) ^ 63 < (2 ^ 54 - 1) * 2 ^ (10 : Int) := by norm_num only
      _ ≤ Binary64.overflow := mul_le_mul_of_nonneg_left power (by norm_num only)
  exact absurd large.1 (small.trans_lt bound).not_ge

/-- Numbers of few digits do not come near the next integer by rounding. -/
theorem evaluate_int_of_digits (fractional : n.isInteger = false) {c k : Nat} (few : c < 2 ^ 53)
    (digits : |n.value| = c / 10 ^ k) :
    evaluate .int (.number n) = .ok (.ofInt (truncation n.value)) := by
  have size : |n.value| ≤ c := by
    rw [digits]
    exact div_le_self c.cast_nonneg (one_le_pow₀ (by norm_num only))
  have few' : (c : ℚ) ≤ 2 ^ 63 := by
    have wide : c ≤ 2 ^ 63 := by omega
    exact_mod_cast wide
  obtain ⟨x, nearest, result⟩ := exists_nearest_of_le fractional (size.trans few')
  have part : |truncation n.value| ≤ (c : Int) := by
    exact_mod_cast (abs_truncation_le n.value).trans size
  have inRange : Word.holds (truncation n.value) = true := by
    rw [abs_le] at part
    rw [Word.holds_iff, Word.least, Word.greatest]
    omega
  rw [result, nearest.truncation_eq few digits, Word.fit?_of_holds inRange]
  rfl

theorem evaluate_int_of_intCast (fractional : n.isInteger = false) {i : Int} (value : n.value = i)
    (inRange : Word.holds i = true) :
    evaluate .int (.number n) = .ok (.ofInt i) ↔ ∃ x : Binary64, x.IsRegular ∧ x.value = i := by
  have size : |n.value| ≤ 2 ^ 63 := by
    rw [Word.holds_iff, Word.least, Word.greatest] at inRange
    have size : |i| ≤ 2 ^ 63 := abs_le.mpr (by omega)
    rw [value]
    exact_mod_cast size
  obtain ⟨x, nearest, result⟩ := exists_nearest_of_le fractional size
  rw [value] at nearest
  rw [result, writtenWord_eq_ok_iff, Word.fit?_eq_some_iff]
  constructor
  · rintro ⟨-, same⟩
    by_cases small : i.natAbs < 2 ^ 53
    · exact Binary64.exists_value_eq i small
    -- So large a float is an integer itself.
    · have far : (2 ^ 52 : Int) ≤ |i| := by
        rw [Int.abs_eq_natAbs]
        omega
      have large : (2 ^ 52 : ℚ) ≤ |x.value| := by
        have part := abs_truncation_le x.value
        rw [same] at part
        exact part.trans' (by exact_mod_cast far)
      obtain ⟨j, integral⟩ := Binary64.exists_intCast_eq nearest.regular large
      rw [integral, truncation_intCast] at same
      exact ⟨x, nearest.regular, by rw [integral, same]⟩
  · rintro ⟨y, regular, same⟩
    have exact := nearest.value_eq regular same
    rw [exact, truncation_intCast]
    exact ⟨inRange, rfl⟩

theorem direct_cast (target : ScalarType) (scope : Scope) (node : Json) :
    (Lookup.cast target).direct scope node = evaluate target node := rfl

/-- Two steps, and what they make of the text of a plain literal. -/
theorem evaluateAlone_decimal_int :
    ∃ chain, Chain.compile "<as_type:decimal>.<as_type:int>" {} = .ok chain ∧
      ∀ scope s n v, literal? (.string s) = some n → n.isPlain →
        (chain.evaluateAlone scope (.string s) = .ok (.value v) ↔
          evaluate .int (.number (decimalNumeral n)) = .ok v) := by
  have read : (Path.read "<as_type:decimal>.<as_type:int>").toOption = some
      [⟨"<as_type:decimal>", .call "as_type" ⟨["decimal"], []⟩⟩,
        ⟨"<as_type:int>", .call "as_type" ⟨["int"], []⟩⟩] := by decide
  have compiled : Chain.compile "<as_type:decimal>.<as_type:int>" {} =
      .ok ⟨"<as_type:decimal>.<as_type:int>",
        [⟨"<as_type:decimal>", .cast .decimal⟩, ⟨"<as_type:int>", .cast .int⟩], none, .fail,
        Registry.standard.name⟩ :=
    Chain.compile_eq_ok_iff.mpr ⟨_, _, toOption_eq_some_iff.mp read, rfl, rfl⟩
  refine ⟨_, compiled, fun scope s n v literal plain => ?_⟩
  rw [Chain.evaluateAlone_eq_direct (Chain.Compiled.wellSpelled ⟨_, _, compiled⟩) fun step member =>
    (Registry.isBuiltin_of_makes
      (Chain.CompiledWith.makes ⟨_, {}, rfl, compiled⟩ step member)).ignoresTable]
  simp only [Chain.direct, Chain.directSteps, direct_cast, evaluate_decimal literal plain]
  rw [evaluate]
  cases cast? .int (.number (decimalNumeral n)) <;> simp [Chain.onFailure]

/-- A number with a point is cast to the integer part of the float nearest to it, and fails if that
is out of range. It is the integer part of the number itself if that has few digits; and an integer
comes back from its text by way of a decimal if and only if it is a float. -/
theorem evaluate_int_truncates :
    (∀ n : Numeral, n.isInteger = false →
      (Binary64.overflow ≤ |n.value| ∧
          evaluate .int (.number n) = .error (.conversion .int (describe (.number n))) ∨
        ∃ x, Binary64.Nearest n.value x ∧
          evaluate .int (.number n) = writtenWord n (Word.fit? (truncation x.value))) ∧
      ∀ c k : Nat, c < 2 ^ 53 → |n.value| = c / 10 ^ k →
        evaluate .int (.number n) = .ok (.ofInt (truncation n.value))) ∧
    ∃ chain, Chain.compile "<as_type:decimal>.<as_type:int>" {} = .ok chain ∧
      ∀ scope (i : Int), Word.holds i = true →
        (chain.evaluateAlone scope (.string (Numeral.ofInt i).text) = .ok (.value (.ofInt i)) ↔
          ∃ x : Binary64, x.IsRegular ∧ x.value = i) := by
  refine ⟨fun n fractional => ⟨evaluate_int_cases fractional, fun c k few digits =>
    evaluate_int_of_digits fractional few digits⟩, ?_⟩
  obtain ⟨chain, compiled, steps⟩ := evaluateAlone_decimal_int
  refine ⟨chain, compiled, fun scope i inRange => ?_⟩
  have literal : literal? (.string (Numeral.ofInt i).text) = some (.ofInt i) := by
    rw [literal?, Word.trim_text, Numeral.read?_text_ofInt]
  have value : (decimalNumeral (.ofInt i)).value = i :=
    (value_decimalNumeral rfl).trans (Numeral.value_ofInt i)
  rw [steps scope _ _ _ literal rfl, evaluate_int_of_intCast rfl value inRange]

/-- A fraction, and the end of the range by way of its text. -/
theorem evaluate_int_truncates_toward_zero :
    evaluate .int (.number ⟨true, [2], some [7], none⟩) = .ok (.ofInt (-2)) ∧
      ∃ chain, Chain.compile "<as_type:decimal>.<as_type:int>" {} = .ok chain ∧
        ∀ scope, chain.evaluateAlone scope (.string (Numeral.ofInt Word.least).text) =
          .ok (.value (.ofInt Word.least)) := by
  constructor
  · have value : Numeral.value ⟨true, [2], some [7], none⟩ = -(27 / 10) := by
      rw [Numeral.value_of_isPlain rfl]
      norm_num [Numeral.coefficient, Numeral.fractionDigits, Digit.toNat]
    have digits : |Numeral.value ⟨true, [2], some [7], none⟩| = (27 : Nat) / 10 ^ 1 := by
      rw [value, abs_neg]
      norm_num
    rw [(evaluate_int_truncates.1 ⟨true, [2], some [7], none⟩ rfl).2 27 1 (by decide) digits, value]
    have part : truncation (-(27 / 10)) = -2 := by
      rw [truncation_neg, truncation_of_nonneg (by norm_num), neg_inj, Int.floor_eq_iff]
      norm_num
    rw [part]
  · obtain ⟨chain, compiled, returns⟩ := evaluate_int_truncates.2
    refine ⟨chain, compiled, fun scope => (returns scope Word.least (by decide)).mpr ?_⟩
    refine ⟨.finite true 4503599627370496 11, ⟨by decide, by decide, by decide, .inr le_rfl⟩, ?_⟩
    norm_num [Binary64.value, Word.least]

/-- An odd integer over `2 ^ 53` is no float, and becomes the even one below it. -/
theorem evaluate_int_beyond_bits :
    let n : Numeral := ⟨false, [9, 0, 0, 7, 1, 9, 9, 2, 5, 4, 7, 4, 0, 9, 9, 3], some [0], none⟩
    truncation n.value = 9007199254740993 ∧
      evaluate .int (.number n) = .ok (.ofInt 9007199254740992) := by
  intro n
  refine ⟨?_, by decide⟩
  have value : n.value = (9007199254740993 : Int) := by
    rw [Numeral.value_of_isPlain rfl]
    norm_num [n, Numeral.coefficient, Numeral.fractionDigits, Digit.toNat]
  rw [value, truncation_intCast]

/-! ### Booleans -/

/-- A number is cast to a boolean by its float: from half the least float down it is false like
zero, and from the bound up as well. -/
theorem evaluate_bool_iff (n : Numeral) :
    ∃ b, evaluate .bool (.number n) = .ok (.bool b) ∧
      (b = true ↔ 2 ^ (-1075 : Int) < |n.value| ∧ |n.value| < Binary64.overflow) :=
  ⟨_, rfl, Binary64.isFinite_and_not_isZero_iff n⟩

theorem evaluate_bool_of_outside
    (outside : ¬ (2 ^ (-1075 : Int) < |n.value| ∧ |n.value| < Binary64.overflow)) :
    evaluate .bool (.number n) = .ok (.bool false) := by
  rw [← Binary64.isFinite_and_not_isZero_iff, Bool.not_eq_true] at outside
  rw [← outside]
  rfl

/-- Two numbers that are not zero, beyond the range on either side. -/
theorem evaluate_bool_out_of_range :
    let large : Numeral := ⟨false, [1], none, some ⟨false, [4, 0, 0]⟩⟩
    let small : Numeral := ⟨false, [1], none, some ⟨true, [5, 0, 0]⟩⟩
    (large.value ≠ 0 ∧ evaluate .bool (.number large) = .ok (.bool false)) ∧
      small.value ≠ 0 ∧ evaluate .bool (.number small) = .ok (.bool false) := by
  intro large small
  have digits : large.coefficient ≠ 0 ∧ small.coefficient ≠ 0 := by decide
  obtain ⟨-, above, -⟩ := Binary64.abs_value_bounds digits.1
  obtain ⟨-, -, below⟩ := Binary64.abs_value_bounds digits.2
  have atLeast : Binary64.overflow ≤ |large.value| := (Binary64.overflow_le (by decide)).trans above
  have atMost : |small.value| ≤ 2 ^ (-1075 : Int) :=
    below.trans (Binary64.le_half_least (by decide))
  exact ⟨⟨Numeral.value_eq_zero_iff.not.mpr digits.1,
      evaluate_bool_of_outside fun inside => atLeast.not_gt inside.2⟩,
    Numeral.value_eq_zero_iff.not.mpr digits.2,
      evaluate_bool_of_outside fun inside => atMost.not_gt inside.1⟩

end Cast

end Reshape
