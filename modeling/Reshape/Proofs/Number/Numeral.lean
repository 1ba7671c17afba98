import Mathlib.Algebra.Order.Field.Basic
import Mathlib.Algebra.Order.Field.Rat
import Mathlib.Data.List.Induction
import Mathlib.Tactic.Ring
import Reshape.Number.Numeral
import Reshape.Number.Power

/-!
What numerals denote, and that the text of a numeral reads back as the numeral.
-/

namespace Reshape

/-! ### Digits -/

namespace Digit

theorem toNat_concat (ds : List Digit) (d : Digit) : toNat (ds ++ [d]) = 10 * toNat ds + d.val := by
  simp [toNat, List.foldl_append]

theorem toNat_append (ds es : List Digit) :
    toNat (ds ++ es) = toNat ds * 10 ^ es.length + toNat es := by
  induction es using List.reverseRecOn with
  | nil => simp [toNat]
  | append_singleton es e ih =>
    rw [← List.append_assoc, toNat_concat, ih, toNat_concat, List.length_append,
      List.length_singleton, pow_succ]
    ring

theorem toNat_cons (d : Digit) (ds : List Digit) :
    toNat (d :: ds) = d.val * 10 ^ ds.length + toNat ds := by
  have single : toNat [d] = d.val := by simp [toNat]
  rw [← List.singleton_append, toNat_append, single]

theorem toNat_dropWhile_zero (ds : List Digit) : toNat (ds.dropWhile (·.val == 0)) = toNat ds := by
  induction ds with
  | nil => rfl
  | cons d ds ih =>
    by_cases zero : d.val = 0
    · rw [List.dropWhile_cons_of_pos (by simp [zero]), ih, toNat_cons, zero, Nat.zero_mul,
        Nat.zero_add]
    · rw [List.dropWhile_cons_of_neg (by simp [zero])]

theorem toNat_replicate_zero (count : Nat) : toNat (List.replicate count zero) = 0 := by
  induction count with
  | zero => rfl
  | succ count ih =>
    rw [List.replicate_succ, toNat_cons, ih]
    simp [zero]

/-! The digits of a number, with enough fuel for them: -/

variable {fuel n : Nat}

theorem toNat_prependNat (enough : n < 10 ^ fuel) (ds : List Digit) :
    toNat (prependNat fuel n ds) = n * 10 ^ ds.length + toNat ds := by
  induction fuel generalizing n ds with
  | zero => simp_all [prependNat]
  | succ fuel ih =>
    rw [prependNat]
    split
    · next small => simp only [toNat_cons, Nat.mod_eq_of_lt small]
    · have fewer : n / 10 < 10 ^ fuel := by
        rw [pow_succ] at enough
        omega
      rw [ih fewer, toNat_cons, List.length_cons, pow_succ]
      conv_rhs => rw [← Nat.div_add_mod n 10]
      ring

theorem length_prependNat_le {count : Nat} (small : n < 10 ^ (count + 1)) (ds : List Digit) :
    (prependNat fuel n ds).length ≤ ds.length + (count + 1) := by
  induction fuel generalizing n count ds with
  | zero => simp [prependNat]
  | succ fuel ih =>
    rw [prependNat]
    split
    · simp
    · next large =>
      cases count with
      | zero => omega
      | succ count =>
        have fewer : n / 10 < 10 ^ (count + 1) := by
          rw [pow_succ] at small
          omega
        have rest := ih fewer (⟨n % 10, Nat.mod_lt _ (by decide)⟩ :: ds)
        rw [List.length_cons] at rest
        omega

theorem prependNat_leading (positive : 0 < n) (enough : n < 10 ^ fuel) (ds : List Digit) :
    ∃ d rest, prependNat fuel n ds = d :: rest ∧ d.val ≠ 0 := by
  induction fuel generalizing n ds with
  | zero => simp_all
  | succ fuel ih =>
    rw [prependNat]
    split
    · next small => exact ⟨_, ds, rfl, by simp only [Nat.mod_eq_of_lt small]; omega⟩
    · refine ih (by omega) ?_ _
      rw [pow_succ] at enough
      omega

theorem lt_tenPow_succ (n : Nat) : n < 10 ^ (n + 1) :=
  (Nat.lt_pow_self (by decide)).trans (Nat.pow_lt_pow_right (by decide) (Nat.lt_succ_self n))

@[simp]
theorem toNat_ofNat (n : Nat) : toNat (ofNat n) = n := by
  rw [ofNat, toNat_prependNat (lt_tenPow_succ n)]
  simp [toNat]

theorem length_ofNat_le {count : Nat} (small : n < 10 ^ (count + 1)) :
    (ofNat n).length ≤ count + 1 := by
  simpa [ofNat] using length_prependNat_le small []

/-- No zero stands at the front of the digits of a number, but for zero itself. -/
theorem ofNat_leading (n : Nat) : ∃ d rest, ofNat n = d :: rest ∧ (d.val ≠ 0 ∨ rest = []) := by
  rcases Nat.eq_zero_or_pos n with rfl | positive
  · exact ⟨zero, [], rfl, .inr rfl⟩
  · obtain ⟨d, rest, digits, nonzero⟩ := prependNat_leading positive (lt_tenPow_succ n) []
    exact ⟨d, rest, digits, .inl nonzero⟩

theorem toNat_lt (ds : List Digit) : toNat ds < 10 ^ ds.length := by
  induction ds with
  | nil => simp [toNat]
  | cons d ds ih =>
    have digit := d.isLt
    rw [toNat_cons, List.length_cons, pow_succ]
    have most : d.val * 10 ^ ds.length ≤ 9 * 10 ^ ds.length := Nat.mul_le_mul_right _ (by omega)
    omega

/-- How many digits a number has. -/
theorem exists_length_ofNat (positive : 0 < n) :
    ∃ count, (ofNat n).length = count + 1 ∧ 10 ^ count ≤ n ∧ n < 10 ^ (count + 1) := by
  obtain ⟨d, rest, digits, leading⟩ := ofNat_leading n
  have denoted := toNat_ofNat n
  have below := toNat_lt (ofNat n)
  rw [denoted, digits, List.length_cons] at below
  refine ⟨rest.length, by rw [digits, List.length_cons], ?_, below⟩
  rw [digits, toNat_cons] at denoted
  rcases leading with nonzero | rfl
  · have least := Nat.le_mul_of_pos_left (10 ^ rest.length) (Nat.pos_of_ne_zero nonzero)
    omega
  · exact positive

/-! Their characters: -/

theorem ofChar?_toChar (d : Digit) : ofChar? d.toChar = some d := by
  revert d
  decide

theorem toChar_ne_sign (d : Digit) : d.toChar ≠ '-' ∧ d.toChar ≠ '+' := by
  revert d
  decide

end Digit

namespace Numeral

/-! ### Text -/

theorem takeDigits_append (ds : List Digit) {rest : List Char}
    (stop : rest.head?.bind Digit.ofChar? = none) :
    takeDigits (ds.map Digit.toChar ++ rest) = (ds, rest) := by
  induction ds with
  | nil =>
    cases rest with
    | nil => rfl
    | cons c cs =>
      rw [List.head?_cons, Option.bind_some] at stop
      simp [takeDigits, stop]
  | cons d ds ih => simp [takeDigits, Digit.ofChar?_toChar, ih]

theorem takeDigits_map (ds : List Digit) : takeDigits (ds.map Digit.toChar) = (ds, []) := by
  have none : ([] : List Char).head?.bind Digit.ofChar? = none := rfl
  simpa using takeDigits_append ds none

theorem takeSign_toChar (d : Digit) (cs : List Char) :
    takeSign (d.toChar :: cs) = (false, d.toChar :: cs) := by
  obtain ⟨minus, plus⟩ := d.toChar_ne_sign
  rw [takeSign] <;> simp_all

def fractionChars : Option (List Digit) → List Char
  | none => []
  | some ds => '.' :: ds.map Digit.toChar

def exponentChars : Option Exponent → List Char
  | none => []
  | some e => 'e' :: (if e.negative then '-' else '+') :: e.digits.map Digit.toChar

theorem toChars_eq (n : Numeral) :
    n.toChars = (if n.negative then ['-'] else []) ++ n.whole.map Digit.toChar ++
      fractionChars n.fraction ++ exponentChars n.exponent := by
  obtain ⟨-, -, _ | _, _ | _⟩ := n <;> rfl

theorem takeFraction_append (fraction : Option (List Digit)) {rest : List Char}
    (stop : rest.head?.bind Digit.ofChar? = none) (unpointed : rest.head? ≠ some '.') :
    takeFraction (fractionChars fraction ++ rest) = (fraction, rest) := by
  cases fraction with
  | none =>
    rw [fractionChars, List.nil_append, takeFraction]
    rintro cs rfl
    exact unpointed rfl
  | some ds => simp [fractionChars, takeFraction, takeDigits_append ds stop]

theorem readExponent?_exponentChars {exponent : Option Exponent}
    (digits : ∀ e, exponent = some e → e.digits ≠ []) :
    readExponent? (exponentChars exponent) = some exponent := by
  rcases exponent with _ | ⟨negative, _ | ⟨d, ds⟩⟩
  · rfl
  · exact absurd rfl (digits _ rfl)
  · have read := takeDigits_map (d :: ds)
    rw [List.map_cons] at read
    cases negative <;> simp [exponentChars, readExponent?, takeSign, read]

theorem read?_toChars {n : Numeral} (whole : n.whole ≠ [])
    (exponent : ∀ e, n.exponent = some e → e.digits ≠ []) : read? n.toChars = some n := by
  obtain ⟨negative, _ | ⟨d, ds⟩, fraction, power⟩ := n
  · exact absurd rfl whole
  have last := readExponent?_exponentChars exponent
  have stop : (exponentChars power).head?.bind Digit.ofChar? = none := by cases power <;> rfl
  have unpointed : (exponentChars power).head? ≠ some '.' := by
    cases power <;> simp [exponentChars]
  have middle := takeFraction_append fraction stop unpointed
  have stop' : (fractionChars fraction ++ exponentChars power).head?.bind Digit.ofChar? = none := by
    cases fraction with
    | none => exact stop
    | some ds => rfl
  have first := takeDigits_append (d :: ds) stop'
  have sign : takeSign (toChars ⟨negative, d :: ds, fraction, power⟩) =
      (negative,
        (d :: ds).map Digit.toChar ++ (fractionChars fraction ++ exponentChars power)) := by
    cases negative with
    | true => simp [toChars_eq, takeSign]
    | false => simpa [toChars_eq] using takeSign_toChar d _
  simp only [read?, sign, first, middle, last, List.isEmpty_cons, Bool.false_and,
    Bool.false_eq_true, if_false, Option.map_some]

theorem readJson?_toChars {n : Numeral} (json : n.isJson) : readJson? n.toChars = some n := by
  have shape := json
  obtain ⟨negative, whole, fraction, exponent⟩ := n
  simp only [isJson, Bool.and_eq_true] at shape
  have nonempty : whole ≠ [] := by
    rintro rfl
    simp at shape
  have powers : ∀ e, exponent = some e → e.digits ≠ [] := by
    rintro e rfl
    simpa using shape.2
  have read := read?_toChars (n := ⟨negative, whole, fraction, exponent⟩) nonempty powers
  have unsigned : ∀ cs, toChars ⟨negative, whole, fraction, exponent⟩ ≠ '+' :: cs := by
    obtain ⟨d, ds, rfl⟩ := List.exists_cons_of_ne_nil nonempty
    cases negative <;> simp [toChars_eq, d.toChar_ne_sign.2]
  rw [readJson?, read, Option.filter_some, if_pos json]
  exact unsigned

/-! ### Integers -/

theorem whole_ofInt_ne_nil (i : Int) : (ofInt i).whole ≠ [] := by
  obtain ⟨d, rest, digits, -⟩ := Digit.ofNat_leading i.natAbs
  rw [ofInt, digits]
  exact List.cons_ne_nil d rest

theorem integer?_ofInt (i : Int) : (ofInt i).integer? = some i := by
  have written : ((ofInt i).isInteger && !(ofInt i).whole.isEmpty) = true := by
    rw [List.isEmpty_eq_false_iff.mpr (whole_ofInt_ne_nil i)]
    rfl
  rw [integer?, if_pos written, ofInt, Digit.toNat_ofNat]
  simp only [decide_eq_true_eq]
  split <;> congr 1 <;> omega

theorem ofInt_injective : Function.Injective ofInt := fun i j same => by
  have read := integer?_ofInt i
  rw [same, integer?_ofInt] at read
  exact (Option.some.inj read).symm

theorem read?_text_ofInt (i : Int) : read? (ofInt i).text.toList = some (ofInt i) := by
  rw [text, String.toList_ofList]
  exact read?_toChars (whole_ofInt_ne_nil i) fun e absent => by cases absent

/-! ### Value -/

/-- The number that a numeral denotes. -/
def value (n : Numeral) : ℚ :=
  (if n.negative then -1 else 1) * n.coefficient * (10 : ℚ) ^ n.power

theorem value_eq_zero_iff {n : Numeral} : n.value = 0 ↔ n.coefficient = 0 := by
  have power : (10 : ℚ) ^ n.power ≠ 0 := zpow_ne_zero _ (by decide)
  rw [value, mul_eq_zero_iff_right power, mul_eq_zero, Nat.cast_eq_zero]
  refine or_iff_right ?_
  split <;> decide

theorem power_of_isPlain {n : Numeral} (plain : n.isPlain) :
    n.power = -(n.fractionDigits.length : Int) := by
  have none : n.exponent = none := by simpa [isPlain] using plain
  simp [power, exponentValue, none]

theorem value_of_isPlain {n : Numeral} (plain : n.isPlain) :
    n.value = (if n.negative then -1 else 1) * n.coefficient / 10 ^ n.fractionDigits.length := by
  rw [value, power_of_isPlain plain, zpow_neg, zpow_natCast, div_eq_mul_inv]

theorem integer?_eq_some {n : Numeral} {i : Int} (read : n.integer? = some i) :
    n.isPlain ∧ n.fraction = none ∧ n.whole ≠ [] ∧
      i = if n.negative then -(Digit.toNat n.whole : Int) else Digit.toNat n.whole := by
  rw [integer?, isInteger] at read
  split at read
  · next shape =>
    simp only [Bool.and_eq_true, Option.isNone_iff_eq_none, Bool.not_eq_true',
      List.isEmpty_eq_false_iff] at shape
    obtain ⟨⟨pointless, plain⟩, digits⟩ := shape
    exact ⟨by rw [isPlain, plain]; rfl, pointless, digits, (Option.some.inj read).symm⟩
  · cases read

theorem value_of_integer? {n : Numeral} {i : Int} (read : n.integer? = some i) : n.value = i := by
  obtain ⟨plain, pointless, -, rfl⟩ := integer?_eq_some read
  have none : n.fractionDigits = [] := by rw [fractionDigits, pointless, Option.getD_none]
  rw [value_of_isPlain plain, coefficient, none, List.append_nil, List.length_nil, pow_zero,
    div_one]
  split <;> simp

theorem value_ofInt (i : Int) : (ofInt i).value = i := value_of_integer? (integer?_ofInt i)

end Numeral

end Reshape
