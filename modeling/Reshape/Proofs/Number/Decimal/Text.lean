import Reshape.Proofs.Number.Binary64
import Reshape.Proofs.Number.Decimal.Rounding
import Reshape.Proofs.Number.Numeral

/-!
Numerals of decimals. They denote the decimal and follow the grammar of JSON; but where a decimal
has no digits after its point, the zero that is written there makes one digit more.
-/

namespace Reshape

/-! ### Numerals with a digit after their point -/

namespace Numeral

variable {negative : Bool} {whole fraction : List Digit}

/-- A plain numeral with at least one digit after its point. -/
def pointed (negative : Bool) (whole fraction : List Digit) : Numeral :=
  ⟨negative, whole, some (if fraction.isEmpty then [Digit.zero] else fraction), none⟩

theorem negative_pointed (negative : Bool) (whole fraction : List Digit) :
    (pointed negative whole fraction).negative = negative := rfl

theorem coefficient_pointed_nil (negative : Bool) (whole : List Digit) :
    (pointed negative whole []).coefficient = 10 * Digit.toNat whole := by
  simp [pointed, coefficient, fractionDigits, Digit.toNat_concat, Digit.zero]

theorem coefficient_pointed (negative : Bool) (whole : List Digit) (pointful : fraction ≠ []) :
    (pointed negative whole fraction).coefficient = Digit.toNat (whole ++ fraction) := by
  simp [pointed, coefficient, fractionDigits, pointful]

theorem fractionDigits_pointed (negative : Bool) (whole fraction : List Digit) :
    (pointed negative whole fraction).fractionDigits =
      if fraction = [] then [Digit.zero] else fraction := by
  simp [pointed, fractionDigits]

theorem value_pointed (negative : Bool) (whole fraction : List Digit) :
    (pointed negative whole fraction).value =
      (if negative then -1 else 1) * Digit.toNat (whole ++ fraction) / 10 ^ fraction.length := by
  rw [value_of_isPlain rfl, fractionDigits_pointed, negative_pointed]
  by_cases pointless : fraction = []
  · rw [pointless, coefficient_pointed_nil, if_pos rfl, List.append_nil, List.length_nil]
    push_cast
    rw [List.length_singleton]
    field_simp
  · rw [coefficient_pointed negative whole pointless, if_neg pointless]

/-- No zero stands at the front of the digits, unless alone. -/
def Leading (ds : List Digit) : Prop := ∃ d rest, ds = d :: rest ∧ (d.val ≠ 0 ∨ rest = [])

theorem isJson_pointed (leading : Leading whole) : (pointed negative whole fraction).isJson := by
  obtain ⟨d, rest, rfl, nonzero | rfl⟩ := leading
  · cases fraction <;> simp [pointed, isJson, nonzero]
  · cases fraction <;> simp [pointed, isJson]

/-- The digits before the point, without superfluous zeros. -/
def stripped (ds : List Digit) : List Digit :=
  if (ds.dropWhile (·.val == 0)).isEmpty then [Digit.zero] else ds.dropWhile (·.val == 0)

theorem leading_stripped (ds : List Digit) : Leading (stripped ds) := by
  rw [stripped]
  cases kept : ds.dropWhile (·.val == 0) with
  | nil => exact ⟨Digit.zero, [], rfl, .inr rfl⟩
  | cons d rest =>
    have stopped := List.head?_dropWhile_not (·.val == 0) ds
    rw [kept] at stopped
    exact ⟨d, rest, rfl, .inl (by simpa using stopped)⟩

theorem stripped_of_leading {ds : List Digit} (leading : Leading ds) : stripped ds = ds := by
  obtain ⟨d, rest, rfl, first⟩ := leading
  by_cases zero : d.val = 0
  · obtain rfl := first.resolve_left (not_not_intro zero)
    obtain rfl : d = Digit.zero := Fin.ext zero
    rfl
  · rw [stripped, List.dropWhile_cons_of_neg (by simp [zero]), List.isEmpty_cons,
      if_neg Bool.false_ne_true]

theorem toNat_stripped (ds : List Digit) : Digit.toNat (stripped ds) = Digit.toNat ds := by
  rw [stripped, ← Digit.toNat_dropWhile_zero ds]
  split
  · next none =>
    rw [List.isEmpty_iff.mp none]
    rfl
  · rfl

/-- `m` is the text of `q` as JSON, in plain notation with at least one digit after the point and no
other zero at its end. -/
structure Writes (m : Numeral) (q : ℚ) : Prop where
  text : readJson? m.toChars = some m
  value : m.value = q
  plain : m.isPlain
  sign : m.negative = true ↔ q < 0
  fraction : ∃ ds e, m.fraction = some (ds ++ [e]) ∧ (e.val = 0 → ds = [])

end Numeral

namespace Decimal

variable {d : Decimal} {n : Numeral}

/-! ### Reading -/

theorem ofPlain?_eq_some (read : ofPlain? n = some d) :
    n.isPlain ∧ d.coefficient.natAbs = n.coefficient ∧ d.scale = n.fractionDigits.length ∧
      d.value = n.value := by
  unfold ofPlain? at read
  split at read
  · next plain =>
    obtain ⟨coefficient, scale⟩ := make?_eq_some read
    refine ⟨plain, ?_, scale, ?_⟩
    · rw [coefficient]
      split <;> simp
    · rw [value, coefficient, scale, Numeral.value_of_isPlain plain]
      split <;> simp
  · cases read

/-! ### Writing -/

theorem dropZeros_spec (coefficient scale : Nat) :
    ∃ zeros, (dropZeros coefficient scale).2 + zeros = scale ∧
      (dropZeros coefficient scale).1 * 10 ^ zeros = coefficient := by
  induction scale generalizing coefficient with
  | zero => exact ⟨0, rfl, Nat.mul_one _⟩
  | succ scale ih =>
    rw [dropZeros]
    split
    · next zero =>
      obtain ⟨zeros, places, digits⟩ := ih (coefficient / 10)
      refine ⟨zeros + 1, by omega, ?_⟩
      rw [pow_succ, ← Nat.mul_assoc, digits]
      omega
    · exact ⟨0, rfl, Nat.mul_one _⟩

/-- A zero is left at the end only before the point. -/
theorem dropZeros_ends (coefficient scale : Nat) :
    (dropZeros coefficient scale).2 = 0 ∨ ¬ 10 ∣ (dropZeros coefficient scale).1 := by
  induction scale generalizing coefficient with
  | zero => exact .inl rfl
  | succ scale ih =>
    rw [dropZeros]
    split
    · exact ih (coefficient / 10)
    · next nonzero => exact .inr (mt Nat.mod_eq_zero_of_dvd nonzero)

theorem splitDigits_spec (coefficient scale : Nat) :
    Numeral.Leading (splitDigits coefficient scale).1 ∧
      (splitDigits coefficient scale).2.length = scale ∧
      Digit.toNat ((splitDigits coefficient scale).1 ++ (splitDigits coefficient scale).2) =
        coefficient := by
  obtain ⟨d, rest, digits, leading⟩ := Digit.ofNat_leading coefficient
  simp only [splitDigits]
  refine ⟨?_, ?_, ?_⟩
  -- Either nothing is filled up and the first digit is that of the number, or a zero stands alone.
  · rcases Nat.lt_or_ge scale (Digit.ofNat coefficient).length with many | few
    · have unpadded : scale + 1 - (Digit.ofNat coefficient).length = 0 := by omega
      rw [unpadded, List.replicate_zero, List.nil_append]
      obtain ⟨more, count⟩ := Nat.exists_eq_add_of_lt many
      have taken : (Digit.ofNat coefficient).length - scale = more + 1 := by omega
      rw [taken, digits, List.take_succ_cons]
      exact ⟨d, _, rfl, leading.imp_right fun alone => by rw [alone, List.take_nil]⟩
    · obtain ⟨more, count⟩ := Nat.exists_eq_add_of_le few
      have padded : scale + 1 - (Digit.ofNat coefficient).length = more + 1 := by omega
      rw [padded, List.length_append, List.length_replicate]
      have taken : more + 1 + (Digit.ofNat coefficient).length - scale = 1 := by omega
      rw [taken]
      exact ⟨Digit.zero, [], rfl, .inr rfl⟩
  · simp only [List.length_drop, List.length_append, List.length_replicate]
    omega
  · rw [List.take_append_drop, Digit.toNat_append, Digit.toNat_replicate_zero, Digit.toNat_ofNat]
    omega

/-- The digits before and after the point of a decimal, less some zeros at their end. -/
def HasDigits (d : Decimal) (whole fraction : List Digit) : Prop :=
  ∃ zeros, fraction.length + zeros = d.scale ∧
    Digit.toNat (whole ++ fraction) * 10 ^ zeros = d.coefficient.natAbs

theorem toNumeral_eq (d : Decimal) :
    ∃ whole fraction, d.toNumeral = Numeral.pointed d.isNegative whole fraction ∧
      Numeral.Leading whole ∧ d.HasDigits whole fraction := by
  obtain ⟨zeros, places, digits⟩ := dropZeros_spec d.coefficient.natAbs d.scale
  obtain ⟨leading, length, denoted⟩ := splitDigits_spec
    (dropZeros d.coefficient.natAbs d.scale).1 (dropZeros d.coefficient.natAbs d.scale).2
  exact ⟨_, _, rfl, leading, zeros, length.symm ▸ places, denoted.symm ▸ digits⟩

theorem fraction_toNumeral (d : Decimal) :
    ∃ ds e, d.toNumeral.fraction = some (ds ++ [e]) ∧ (e.val = 0 → ds = []) := by
  have ends := dropZeros_ends d.coefficient.natAbs d.scale
  obtain ⟨-, length, denoted⟩ := splitDigits_spec
    (dropZeros d.coefficient.natAbs d.scale).1 (dropZeros d.coefficient.natAbs d.scale).2
  simp only [toNumeral]
  generalize splitDigits (dropZeros d.coefficient.natAbs d.scale).1
    (dropZeros d.coefficient.natAbs d.scale).2 = parts at *
  obtain ⟨whole, fraction⟩ := parts
  rcases fraction.eq_nil_or_concat with rfl | ⟨ds, e, rfl⟩
  · exact ⟨[], Digit.zero, rfl, fun _ => rfl⟩
  · simp only [List.concat_eq_append] at length denoted ⊢
    refine ⟨ds, e, by simp, fun zero => absurd ?_ (ends.resolve_left (by simp [← length]))⟩
    rw [← denoted, ← List.append_assoc, Digit.toNat_concat, zero]
    exact Nat.dvd_mul_right 10 _

theorem value_toNumeral (d : Decimal) : d.toNumeral.value = d.value := by
  obtain ⟨whole, fraction, text, -, zeros, places, digits⟩ := toNumeral_eq d
  have sign : (d.coefficient : ℚ) = (if d.isNegative then -1 else 1) * d.coefficient.natAbs := by
    rw [Nat.cast_natAbs, Int.cast_abs]
    by_cases negative : d.coefficient < 0
    · have negative' : (d.coefficient : ℚ) < 0 := by exact_mod_cast negative
      simp [isNegative, negative, abs_of_neg negative']
    · have positive : (0 : ℚ) ≤ d.coefficient := by exact_mod_cast not_lt.mp negative
      simp [isNegative, negative, abs_of_nonneg positive]
  rw [text, Numeral.value_pointed, value, sign, ← places, ← digits, pow_add]
  push_cast
  field_simp

theorem writes_toNumeral (d : Decimal) : d.toNumeral.Writes d.value where
  text := by
    obtain ⟨whole, fraction, text, leading, -⟩ := d.toNumeral_eq
    rw [text]
    exact Numeral.readJson?_toChars (Numeral.isJson_pointed leading)
  value := d.value_toNumeral
  plain := rfl
  sign := by
    have same : d.toNumeral.negative = d.isNegative := rfl
    rw [same, isNegative_eq, decide_eq_true_iff]
  fraction := d.fraction_toNumeral

/-! ### Reading back -/

/-- The zero after the point takes a digit that the decimal does not have. -/
def IsWide (d : Decimal) : Prop := d.scale = 0 ∧ limit ≤ 10 * d.coefficient.natAbs

instance : DecidablePred IsWide := fun _ => inferInstanceAs (Decidable (_ ∧ _))

theorem isSome_ofPlain?_iff (plain : n.isPlain) :
    (ofPlain? n).isSome ↔ n.coefficient < limit ∧ n.fractionDigits.length ≤ 28 := by
  have size : (if n.negative then -(n.coefficient : Int) else n.coefficient).natAbs =
      n.coefficient := by
    split <;> simp
  rw [ofPlain?, if_pos plain, isSome_make?_iff, size]

namespace HasDigits

variable {whole fraction : List Digit}

theorem toNat_lt (digits : d.HasDigits whole fraction) :
    Digit.toNat (whole ++ fraction) < limit := by
  obtain ⟨zeros, -, same⟩ := digits
  have least := Nat.le_mul_of_pos_right (Digit.toNat (whole ++ fraction))
    (show 0 < 10 ^ zeros by positivity)
  exact (least.trans_eq same).trans_lt d.coefficient_lt

theorem length_le (digits : d.HasDigits whole fraction) : fraction.length ≤ 28 := by
  obtain ⟨zeros, places, -⟩ := digits
  have fits := d.scale_le
  omega

/-- Without digits after the point there is room for the zero there, unless no zero was left out. -/
theorem isWide_iff (digits : d.HasDigits whole []) : d.IsWide ↔ limit ≤ 10 * Digit.toNat whole := by
  obtain ⟨zeros, places, same⟩ := digits
  have small := d.coefficient_lt
  rw [List.length_nil, Nat.zero_add] at places
  rw [List.append_nil] at same
  rw [IsWide]
  cases zeros with
  | zero =>
    rw [pow_zero, Nat.mul_one] at same
    omega
  | succ zeros =>
    have least : 10 * Digit.toNat whole ≤ d.coefficient.natAbs := by
      rw [← same, pow_succ, ← Nat.mul_assoc, Nat.mul_comm]
      exact Nat.mul_le_mul_right 10 (Nat.le_mul_of_pos_right _ (by positivity))
    omega

theorem isSome_ofPlain?_iff (digits : d.HasDigits whole fraction) (negative : Bool) :
    (ofPlain? (Numeral.pointed negative whole fraction)).isSome ↔ ¬ d.IsWide := by
  rw [Decimal.isSome_ofPlain?_iff rfl, Numeral.fractionDigits_pointed]
  by_cases pointless : fraction = []
  · subst pointless
    rw [digits.isWide_iff, Numeral.coefficient_pointed_nil, if_pos rfl, List.length_singleton]
    omega
  · have small := digits.toNat_lt
    have fits := digits.length_le
    have pointful := List.length_pos_iff.mpr pointless
    obtain ⟨zeros, places, -⟩ := digits
    rw [Numeral.coefficient_pointed negative whole pointless, if_neg pointless, IsWide]
    omega

theorem isFinite_ofNumeral (digits : d.HasDigits whole fraction) (negative : Bool) :
    (Binary64.ofNumeral (Numeral.pointed negative whole fraction)).isFinite := by
  have small := digits.toNat_lt
  have fits := digits.length_le
  rw [limit] at small
  refine Binary64.isFinite_ofNumeral rfl ?_ ?_
  · by_cases pointless : fraction = []
    · subst pointless
      rw [List.append_nil] at small
      rw [Numeral.coefficient_pointed_nil]
      omega
    · rw [Numeral.coefficient_pointed negative whole pointless]
      omega
  · rw [Numeral.fractionDigits_pointed]
    split
    · simp
    · omega

end HasDigits

end Decimal

end Reshape
