import Reshape.Proofs.Except
import Reshape.Proofs.Lookup.Integers
import Reshape.Proofs.Number.Binary64.Reading

/-!
Faults of arithmetic: on which numbers and operands the arithmetic lookup fails, and how. The
operand of a lookup that could be made is read in the arithmetic of the number or refused there, and
a divisor is looked at before anything is divided by it.
-/

namespace Reshape

/-- The operators that have a divisor. -/
def Operator.divides : Operator → Bool
  | .div | .floorDiv | .mod => true
  | .add | .sub | .mul | .pow => false

namespace Arithmetic

namespace Quantity

/-- The arithmetic that a quantity belongs to. -/
def type : Quantity → ScalarType
  | integer _ => .int
  | decimal _ => .decimal
  | float _ => .float

def isZero : Quantity → Bool
  | integer i => i = 0
  | decimal d => d.isZero
  | float x => x.isZero

end Quantity

variable {lookup : Arithmetic} {n : Numeral} {value operand left right : Quantity} {op : Operator}
  {fault : ArithmeticFault} {e : LookupError}

/-! ### Operands -/

/-- The operand as an error shows it. -/
def quoted (lookup : Arithmetic) : String := "\"" ++ lookup.operand ++ "\""

/-- The operand is read in the arithmetic of the number, or cannot be converted to its type. -/
theorem operandLike_cases (lookup : Arithmetic) (value : Quantity) :
    (∃ operand, lookup.operandLike value = .ok operand ∧ operand.type = value.type) ∨
      lookup.operandLike value = .error (.conversion value.type lookup.quoted) := by
  cases value with
  | integer i =>
    unfold operandLike
    dsimp only
    cases Word.read? (Text.trim lookup.operand) with
    | none => exact .inr rfl
    | some b => exact .inl ⟨.integer b, rfl, rfl⟩
  | decimal d =>
    unfold operandLike
    dsimp only
    cases Numeral.read? (Text.trim lookup.operand).toList with
    | none => exact .inr rfl
    | some m =>
      rw [Option.bind_some]
      cases (Decimal.ofPlain? m).or (Decimal.ofScientific? m) with
      | none => exact .inr rfl
      | some b => exact .inl ⟨.decimal b, rfl, rfl⟩
  | float x =>
    unfold operandLike
    dsimp only
    cases Binary64.read? (Text.trim lookup.operand) with
    | none => exact .inr rfl
    | some y => exact .inl ⟨.float y, rfl, rfl⟩

theorem operandLike_eq_error (failed : lookup.operandLike value = .error e) :
    e = .conversion value.type lookup.quoted := by
  rcases operandLike_cases lookup value with ⟨_, read, -⟩ | refused
  · rw [read] at failed
    cases failed
  · rw [refused] at failed
    exact (Except.error.inj failed).symm

theorem operandLike_integer_eq_error_iff {i : Int} :
    lookup.operandLike (.integer i) = .error e ↔
      Word.read? (Text.trim lookup.operand) = none ∧ e = .conversion .int lookup.quoted := by
  unfold operandLike
  dsimp only
  cases Word.read? (Text.trim lookup.operand) with
  | none => simp [quoted, eq_comm]
  | some b => simp

theorem of_make {reverse : Bool} {text : String} (made : make op text reverse = .ok lookup) :
    lookup = ⟨op, text, reverse⟩ ∧ ∃ y, Binary64.read? (Text.trim lookup.operand) = some y := by
  rw [make] at made
  split at made
  · next number =>
    obtain rfl := Except.ok.inj made
    exact ⟨rfl, Option.isSome_iff_exists.mp number⟩
  · cases made

/-- The operand of a lookup that could be made is a number for every float. -/
theorem type_ne_float_of_operandLike {y : Binary64}
    (read : Binary64.read? (Text.trim lookup.operand) = some y)
    (failed : lookup.operandLike value = .error e) : value.type ≠ .float := by
  cases value with
  | integer | decimal => exact nofun
  | float x =>
    unfold operandLike at failed
    dsimp only at failed
    rw [read] at failed
    cases failed

theorem Takes.type_eq (takes : lookup.Takes n left right) : left.type = right.type := by
  obtain ⟨value, operand, -, read, sides⟩ := takes
  have same : operand.type = value.type := by
    rcases operandLike_cases lookup value with ⟨_, read', same⟩ | refused
    · rw [read] at read'
      rwa [Except.ok.inj read']
    · rw [read] at refused
      cases refused
  split at sides
  · cases sides
    exact same
  · cases sides
    exact same.symm

/-! ### Operations -/

theorem orFault_eq_error {α : Type} {result : Option α} {cause : ArithmeticFault}
    (failed : orFault fault result = .error cause) : cause = fault := by
  cases result with
  | none => exact (Except.error.inj failed).symm
  | some a => cases failed

theorem written_eq_error {α β : Type} {f : α → β} {result : Option α} {cause : ArithmeticFault}
    (failed : f <$> orFault fault result = .error cause) : cause = fault :=
  orFault_eq_error (map_eq_error_iff.mp failed)

/-- An operation fails on a divisor of zero, and otherwise with faults of its own only. -/
structure Guards {α : Type} (op : Operator) (zero : Bool) (own : ArithmeticFault → Prop)
    (x : Except ArithmeticFault α) : Prop where
  refuses : op.divides = true → zero = true → x = .error .divisionByZero
  cause : ∀ fault, x = .error fault →
    own fault ∨ fault = .divisionByZero ∧ op.divides = true ∧ zero = true

theorem guards_undivided {α : Type} {zero : Bool} {own : ArithmeticFault → Prop}
    {x : Except ArithmeticFault α} (undivided : op.divides = false)
    (each : ∀ cause, x = .error cause → own cause) : Guards op zero own x :=
  ⟨by simp [undivided], fun _ failed => .inl (each _ failed)⟩

theorem guards_checked {α : Type} {zero : Bool} {own : ArithmeticFault → Prop}
    {divided : Unit → Except ArithmeticFault α} (divides : op.divides = true)
    (each : ∀ cause, divided () = .error cause → own cause) :
    Guards op zero own (checkDivisor zero >>= divided) := by
  cases zero with
  | true =>
    refine ⟨fun _ _ => rfl, fun _ failed => ?_⟩
    exact .inr ⟨(Except.error.inj failed).symm, divides, rfl⟩
  | false => exact ⟨fun _ => nofun, fun _ failed => .inl (each _ failed)⟩

theorem guards_onIntegers (op : Operator) (a b : Int) :
    Guards op (b = 0) (· = .integerOverflow) (onIntegers op a b) := by
  cases op with
  | add | sub | mul => exact guards_undivided rfl fun _ => written_eq_error
  | div => exact guards_checked rfl nofun
  | floorDiv | mod => exact guards_checked rfl fun _ => written_eq_error
  | pow =>
    refine guards_undivided rfl fun _ failed => ?_
    rw [onIntegers] at failed
    split at failed
    · exact written_eq_error failed
    · cases failed

theorem guards_onDecimals (op : Operator) (a b : Decimal) :
    Guards op b.isZero (· = .decimalOverflow) (onDecimals op a b) := by
  cases op with
  | add | sub | mul => exact guards_undivided rfl fun _ => written_eq_error
  | div | floorDiv | mod => exact guards_checked rfl fun _ => written_eq_error
  | pow =>
    refine guards_undivided rfl fun _ failed => ?_
    rw [onDecimals] at failed
    split at failed
    · exact written_eq_error failed
    · cases failed

theorem guards_onFloats (op : Operator) (a b : Binary64) :
    Guards op b.isZero (fun _ => False) (onFloats op a b) := by
  cases op with
  | add | sub | mul | pow => exact guards_undivided rfl nofun
  | div | floorDiv | mod => exact guards_checked rfl nofun

theorem guards_apply (same : left.type = right.type) :
    Guards op right.isZero (fun fault => fault = .integerOverflow ∨ fault = .decimalOverflow)
      (apply op left right) := by
  cases left <;> cases right <;> try cases same
  case integer.integer a b =>
    obtain ⟨refuses, cause⟩ := guards_onIntegers op a b
    exact ⟨refuses, fun _ failed => (cause _ failed).imp_left .inl⟩
  case decimal.decimal a b =>
    obtain ⟨refuses, cause⟩ := guards_onDecimals op a b
    exact ⟨refuses, fun _ failed => (cause _ failed).imp_left .inr⟩
  case float.float a b =>
    obtain ⟨refuses, cause⟩ := guards_onFloats op a b
    refine ⟨fun divides zero => ?_, fun _ failed => ?_⟩
    · rw [apply, refuses divides zero]
      rfl
    · rw [apply, map_eq_error_iff] at failed
      exact (cause _ failed).imp_left False.elim

/-! ### Evaluation -/

/-- Where a number makes the lookup fail: it is too large, the operand cannot be converted, the
operation fails, or the result is not finite. -/
theorem evaluate_number_eq_error (failed : lookup.evaluate (.number n) = .error e) :
    e = lookup.fault .unrepresentable ∨
    (∃ value, Quantity.ofNumeral? n = some value ∧ lookup.operandLike value = .error e) ∨
    (∃ left right fault, lookup.Takes n left right ∧
      apply lookup.operator left right = .error fault ∧ e = lookup.fault fault) ∨
    e = lookup.fault .notFinite := by
  cases known : Quantity.ofNumeral? n with
  | none =>
    rw [evaluate, known] at failed
    exact .inl (Except.error.inj failed).symm
  | some value =>
    cases read : lookup.operandLike value with
    | error cause =>
      simp only [evaluate, known, orFault, Except.mapError, bind, Except.bind, read] at failed
      exact .inr (.inl ⟨value, rfl, by rw [read, Except.error.inj failed]⟩)
    | ok operand =>
      have takes : lookup.Takes n (if lookup.reverse then operand else value)
          (if lookup.reverse then value else operand) :=
        ⟨value, operand, known, read, by split <;> rfl⟩
      rw [takes.evaluate_eq] at failed
      rcases bind_eq_error_iff.mp failed with failed | ⟨result, -, failed⟩
      · obtain ⟨fault, applied, rfl⟩ := mapError_eq_error_iff.mp failed
        exact .inr (.inr (.inl ⟨_, _, fault, takes, applied, rfl⟩))
      · rcases bind_eq_error_iff.mp failed with failed | ⟨m, -, failed⟩
        · obtain ⟨fault, infinite, rfl⟩ := mapError_eq_error_iff.mp failed
          rw [orFault_eq_error infinite]
          exact .inr (.inr (.inr rfl))
        · cases failed

theorem evaluate_eq_conversion_iff {target : ScalarType} {text : String} :
    lookup.evaluate (.number n) = .error (.conversion target text) ↔
      ∃ value, Quantity.ofNumeral? n = some value ∧
        lookup.operandLike value = .error (.conversion target text) := by
  constructor
  · intro failed
    rcases evaluate_number_eq_error failed with same | refused | ⟨_, _, _, -, -, same⟩ | same
    · cases same
    · exact refused
    · cases same
    · cases same
  · rintro ⟨value, known, refused⟩
    simp only [evaluate, known, orFault, Except.mapError, bind, Except.bind, refused]

theorem evaluate_eq_conversion_int_iff {shown : String} :
    lookup.evaluate (.number n) = .error (.conversion .int shown) ↔
      (∃ i, Word.ofNumeral? n = some i) ∧ Word.read? (Text.trim lookup.operand) = none ∧
        shown = lookup.quoted := by
  rw [evaluate_eq_conversion_iff]
  constructor
  · rintro ⟨value, known, refused⟩
    cases value with
    | integer i =>
      obtain ⟨unread, same⟩ := operandLike_integer_eq_error_iff.mp refused
      exact ⟨⟨i, ofNumeral?_eq_integer_iff.mp known⟩, unread, (LookupError.conversion.inj same).2⟩
    | decimal | float => cases operandLike_eq_error refused
  · rintro ⟨⟨i, word⟩, unread, rfl⟩
    exact ⟨.integer i, ofNumeral?_eq_integer_iff.mpr word,
      operandLike_integer_eq_error_iff.mpr ⟨unread, rfl⟩⟩

theorem evaluate_ne_conversion_float {y : Binary64} {shown : String}
    (read : Binary64.read? (Text.trim lookup.operand) = some y) :
    lookup.evaluate (.number n) ≠ .error (.conversion .float shown) := by
  rw [Ne, evaluate_eq_conversion_iff]
  rintro ⟨value, -, refused⟩
  have target := (LookupError.conversion.inj (operandLike_eq_error refused)).1
  exact type_ne_float_of_operandLike read refused target.symm

theorem evaluate_ne_typeMismatch {which : Restricted} {found : Kind} :
    lookup.evaluate (.number n) ≠ .error (.typeMismatch which found) := by
  intro failed
  rcases evaluate_number_eq_error failed with same | ⟨_, -, refused⟩ | ⟨_, _, _, -, -, same⟩ | same
  · cases same
  · cases operandLike_eq_error refused
  · cases same
  · cases same

theorem evaluate_of_kind_ne {node : Json} (other : node.kind ≠ .number) :
    lookup.evaluate node = .error (.typeMismatch .arith node.kind) := by
  cases node with
  | number n => exact absurd rfl other
  | null | bool | string | array | object => rfl

theorem evaluate_eq_divisionByZero_iff :
    lookup.evaluate (.number n) = .error (.arithmetic op .divisionByZero) ↔
      op = lookup.operator ∧ op.divides = true ∧
        ∃ left right, lookup.Takes n left right ∧ right.isZero = true := by
  constructor
  · intro failed
    rcases evaluate_number_eq_error failed with
      same | ⟨value, -, refused⟩ | ⟨left, right, fault, takes, failed, same⟩ | same
    · cases same
    · cases operandLike_eq_error refused
    · obtain ⟨rfl, rfl⟩ := LookupError.arithmetic.inj same
      rcases (guards_apply takes.type_eq).cause _ failed with (own | own) | ⟨-, divides, zero⟩
      · cases own
      · cases own
      · exact ⟨rfl, divides, left, right, takes, zero⟩
    · cases same
  · rintro ⟨rfl, divides, left, right, takes, zero⟩
    exact takes.evaluate_eq_error ((guards_apply takes.type_eq).refuses divides zero)

theorem evaluate_ne_mixedKinds :
    lookup.evaluate (.number n) ≠ .error (.arithmetic op .mixedKinds) := by
  intro failed
  rcases evaluate_number_eq_error failed with
    same | ⟨value, -, refused⟩ | ⟨left, right, fault, takes, failed, same⟩ | same
  · cases same
  · cases operandLike_eq_error refused
  · obtain ⟨rfl, rfl⟩ := LookupError.arithmetic.inj same
    rcases (guards_apply takes.type_eq).cause _ failed with (own | own) | ⟨own, -, -⟩ <;> cases own
  · cases same

/-! ### Divisions -/

/-- The divisions of the three arithmetics, each given a dividend and a divisor. -/
structure Divisions where
  quotient : Int → Int → Option Int
  remainder : Int → Int → Option Int
  decimalQuotient : Decimal → Decimal → Option Decimal
  decimalRemainder : Decimal → Decimal → Option Decimal
  floatQuotient : Binary64 → Binary64 → Binary64

namespace Divisions

variable {divisions : Divisions}

/-- The divisions that the lookup runs, but for divisors of zero, for which they may do anything. -/
structure AgreeOffZero (divisions : Divisions) : Prop where
  quotient : ∀ a b, b ≠ 0 → divisions.quotient a b = Word.div? a b
  remainder : ∀ a b, b ≠ 0 → divisions.remainder a b = Word.rem? a b
  decimalQuotient : ∀ a b, b.isZero = false → divisions.decimalQuotient a b = a.div? b
  decimalRemainder : ∀ a b, b.isZero = false → divisions.decimalRemainder a b = a.rem? b
  floatQuotient : ∀ x y, y.isZero = false → divisions.floatQuotient x y = x.div y

/-! The operations of the lookup, with the divisions given. -/

def floorDiv? (divisions : Divisions) (a b : Int) : Option Int := do
  let q ← divisions.quotient a b
  let r ← divisions.remainder a b
  if opposed r b then Word.fit? (q - 1) else some q

def floorMod? (divisions : Divisions) (a b : Int) : Option Int := do
  let r ← divisions.remainder a b
  if opposed r b then Word.fit? (r + b) else some r

def decimalFloorMod? (divisions : Divisions) (a b : Decimal) : Option Decimal := do
  let r ← divisions.decimalRemainder a b
  if !r.isZero && r.isNegative != b.isNegative then r.add? b else some r

def decimalFloorDiv? (divisions : Divisions) (a b : Decimal) : Option Decimal := do
  divisions.decimalQuotient (← a.sub? (← divisions.decimalFloorMod? a b)) b

def decimalPow? (divisions : Divisions) (a : Decimal) (n : Int) : Option Decimal := do
  let power ← Reshape.power? Decimal.mul? .one a n.natAbs
  if 0 ≤ n then some power
  else if power.isZero then none
  else divisions.decimalQuotient .one power

def onIntegers (divisions : Divisions) (op : Operator) (a b : Int) :
    Except ArithmeticFault Quantity := do
  match op with
  | .div =>
    checkDivisor (b = 0)
    return .float (divisions.floatQuotient (.ofInt a) (.ofInt b))
  | .floorDiv =>
    checkDivisor (b = 0)
    .integer <$> orFault .integerOverflow (divisions.floorDiv? a b)
  | .mod =>
    checkDivisor (b = 0)
    .integer <$> orFault .integerOverflow (divisions.floorMod? a b)
  | op => Arithmetic.onIntegers op a b

def onDecimals (divisions : Divisions) (op : Operator) (a b : Decimal) :
    Except ArithmeticFault Quantity := do
  match op with
  | .div =>
    checkDivisor b.isZero
    .decimal <$> orFault .decimalOverflow (divisions.decimalQuotient a b)
  | .floorDiv =>
    checkDivisor b.isZero
    .decimal <$> orFault .decimalOverflow (divisions.decimalFloorDiv? a b)
  | .mod =>
    checkDivisor b.isZero
    .decimal <$> orFault .decimalOverflow (divisions.decimalFloorMod? a b)
  | .pow =>
    match b.integer?.bind Word.fit? with
    | some n => .decimal <$> orFault .decimalOverflow (divisions.decimalPow? a n)
    | none => return .float ((Binary64.ofDecimal a).pow (Binary64.ofDecimal b))
  | op => Arithmetic.onDecimals op a b

def onFloats (divisions : Divisions) (op : Operator) (x y : Binary64) :
    Except ArithmeticFault Binary64 := do
  match op with
  | .div =>
    checkDivisor y.isZero
    return divisions.floatQuotient x y
  | .floorDiv =>
    checkDivisor y.isZero
    return (divisions.floatQuotient x y).floor
  | .mod =>
    checkDivisor y.isZero
    return x.sub (y.mul (divisions.floatQuotient x y).floor)
  | op => Arithmetic.onFloats op x y

def apply (divisions : Divisions) (op : Operator) :
    Quantity → Quantity → Except ArithmeticFault Quantity
  | .integer a, .integer b => divisions.onIntegers op a b
  | .decimal a, .decimal b => divisions.onDecimals op a b
  | .float x, .float y => .float <$> divisions.onFloats op x y
  | _, _ => .error .mixedKinds

def evaluate (divisions : Divisions) (lookup : Arithmetic) : Json → Except LookupError Json
  | .number n => do
    let value ← (orFault .unrepresentable (Quantity.ofNumeral? n)).mapError lookup.fault
    let operand ← lookup.operandLike value
    let (left, right) := if lookup.reverse then (operand, value) else (value, operand)
    let result ← (divisions.apply lookup.operator left right).mapError lookup.fault
    return .number (← (orFault .notFinite result.toNumeral?).mapError lookup.fault)
  | node => .error (.typeMismatch .arith node.kind)

theorem checkDivisor_congr {α : Type} {zero : Bool} {f g : Unit → Except ArithmeticFault α}
    (same : zero = false → f () = g ()) : checkDivisor zero >>= f = checkDivisor zero >>= g := by
  cases zero with
  | true => rfl
  | false => exact same rfl

namespace AgreeOffZero

theorem floorDiv?_eq (agree : divisions.AgreeOffZero) (a : Int) {b : Int} (nonzero : b ≠ 0) :
    divisions.floorDiv? a b = Arithmetic.floorDiv? a b := by
  rw [floorDiv?, Arithmetic.floorDiv?, agree.quotient a b nonzero, agree.remainder a b nonzero]

theorem floorMod?_eq (agree : divisions.AgreeOffZero) (a : Int) {b : Int} (nonzero : b ≠ 0) :
    divisions.floorMod? a b = Arithmetic.floorMod? a b := by
  rw [floorMod?, Arithmetic.floorMod?, agree.remainder a b nonzero]

theorem decimalFloorMod?_eq (agree : divisions.AgreeOffZero) (a : Decimal) {b : Decimal}
    (nonzero : b.isZero = false) : divisions.decimalFloorMod? a b = a.floorMod? b := by
  rw [decimalFloorMod?, Decimal.floorMod?, agree.decimalRemainder a b nonzero]

theorem decimalFloorDiv?_eq (agree : divisions.AgreeOffZero) (a : Decimal) {b : Decimal}
    (nonzero : b.isZero = false) : divisions.decimalFloorDiv? a b = a.floorDiv? b := by
  rw [decimalFloorDiv?, Decimal.floorDiv?, agree.decimalFloorMod?_eq a nonzero]
  simp only [agree.decimalQuotient _ b nonzero]

/-- The power that is inverted has been looked at. -/
theorem decimalPow?_eq (agree : divisions.AgreeOffZero) (a : Decimal) (n : Int) :
    divisions.decimalPow? a n = a.pow? n := by
  rw [decimalPow?, Decimal.pow?]
  refine congrArg (Option.bind _) (funext fun power => ?_)
  cases zero : power.isZero with
  | true => rfl
  | false => rw [agree.decimalQuotient _ power zero]

theorem onIntegers_eq (agree : divisions.AgreeOffZero) (op : Operator) (a b : Int) :
    divisions.onIntegers op a b = Arithmetic.onIntegers op a b := by
  cases op with
  | add | sub | mul | pow => rfl
  | div =>
    refine checkDivisor_congr fun nonzero => ?_
    rw [agree.floatQuotient _ _ (Binary64.isZero_ofInt (of_decide_eq_false nonzero))]
  | floorDiv =>
    refine checkDivisor_congr fun nonzero => ?_
    rw [agree.floorDiv?_eq a (of_decide_eq_false nonzero)]
  | mod =>
    refine checkDivisor_congr fun nonzero => ?_
    rw [agree.floorMod?_eq a (of_decide_eq_false nonzero)]

theorem onDecimals_eq (agree : divisions.AgreeOffZero) (op : Operator) (a b : Decimal) :
    divisions.onDecimals op a b = Arithmetic.onDecimals op a b := by
  cases op with
  | add | sub | mul => rfl
  | div =>
    refine checkDivisor_congr fun nonzero => ?_
    rw [agree.decimalQuotient a b nonzero]
  | floorDiv =>
    refine checkDivisor_congr fun nonzero => ?_
    rw [agree.decimalFloorDiv?_eq a nonzero]
  | mod =>
    refine checkDivisor_congr fun nonzero => ?_
    rw [agree.decimalFloorMod?_eq a nonzero]
  | pow =>
    simp only [onDecimals, Arithmetic.onDecimals]
    cases b.integer?.bind Word.fit? with
    | none => rfl
    | some n =>
      exact congrArg (Quantity.decimal <$> orFault .decimalOverflow ·) (agree.decimalPow?_eq a n)

theorem onFloats_eq (agree : divisions.AgreeOffZero) (op : Operator) (x y : Binary64) :
    divisions.onFloats op x y = Arithmetic.onFloats op x y := by
  cases op with
  | add | sub | mul | pow => rfl
  | div | floorDiv | mod =>
    refine checkDivisor_congr fun nonzero => ?_
    rw [agree.floatQuotient x y nonzero]

theorem apply_eq (agree : divisions.AgreeOffZero) (op : Operator) (left right : Quantity) :
    divisions.apply op left right = Arithmetic.apply op left right := by
  cases left <;> cases right <;> try rfl
  case integer.integer a b => exact agree.onIntegers_eq op a b
  case decimal.decimal a b => exact agree.onDecimals_eq op a b
  case float.float x y => exact congrArg (Quantity.float <$> ·) (agree.onFloats_eq op x y)

theorem evaluate_eq (agree : divisions.AgreeOffZero) (lookup : Arithmetic) (node : Json) :
    divisions.evaluate lookup node = lookup.evaluate node := by
  cases node <;> try rfl
  case number n => simp only [evaluate, Arithmetic.evaluate, agree.apply_eq]

end AgreeOffZero

end Divisions

/-- A lookup that could be made mixes no kinds and reads its operand as a float wherever it has to.
It fails on all that is no number, on words with an operand that is none, and on a divisor of zero;
with such a divisor nothing is ever divided, whatever the division would give. -/
theorem evaluate_faults {text : String} {reverse : Bool} (made : make op text reverse = .ok lookup)
    (node : Json) :
    (∀ op', lookup.evaluate node ≠ .error (.arithmetic op' .mixedKinds)) ∧
    (∀ shown, lookup.evaluate node ≠ .error (.conversion .float shown)) ∧
    (∀ which found, lookup.evaluate node = .error (.typeMismatch which found) ↔
      node.kind ≠ .number ∧ which = .arith ∧ found = node.kind) ∧
    (∀ shown, lookup.evaluate node = .error (.conversion .int shown) ↔
      (∃ n i, node = .number n ∧ Word.ofNumeral? n = some i) ∧
        Word.read? (Text.trim text) = none ∧ shown = "\"" ++ text ++ "\"") ∧
    (∀ op', lookup.evaluate node = .error (.arithmetic op' .divisionByZero) ↔
      op' = op ∧ op.divides = true ∧ ∃ n left right, node = .number n ∧
        lookup.Takes n left right ∧ left.type = right.type ∧ right.isZero = true) ∧
    ∀ divisions : Divisions, divisions.AgreeOffZero →
      divisions.evaluate lookup node = lookup.evaluate node := by
  obtain ⟨rfl, y, read⟩ := of_make made
  by_cases number : ∃ n, node = .number n
  · obtain ⟨n, rfl⟩ := number
    refine ⟨fun _ => evaluate_ne_mixedKinds, fun _ => evaluate_ne_conversion_float read,
      fun which found => iff_of_false evaluate_ne_typeMismatch fun other => other.1 rfl,
      fun shown => ?_, fun op' => ?_, fun _ agree => agree.evaluate_eq _ _⟩
    · rw [evaluate_eq_conversion_int_iff]
      simp [quoted]
    · rw [evaluate_eq_divisionByZero_iff]
      constructor
      · rintro ⟨rfl, divides, left, right, takes, zero⟩
        exact ⟨rfl, divides, n, left, right, rfl, takes, takes.type_eq, zero⟩
      · rintro ⟨rfl, divides, _, left, right, ⟨⟩, takes, -, zero⟩
        exact ⟨rfl, divides, left, right, takes, zero⟩
  · have other : node.kind ≠ .number := by
      intro kind
      cases node <;> first | exact number ⟨_, rfl⟩ | cases kind
    have none (n : Numeral) : node ≠ .number n := fun same => number ⟨n, same⟩
    rw [evaluate_of_kind_ne other]
    refine ⟨nofun, nofun, fun which found => ?_, ?_, ?_, fun _ agree => ?_⟩
    · simp [other, eq_comm]
    · simp [none]
    · simp [none]
    · rw [agree.evaluate_eq, evaluate_of_kind_ne other]

/-- With the roles exchanged, a number too small for a float is a divisor of zero; an operand with a
point is none for a word, zero or not. -/
theorem evaluate_faults_zero :
    evaluate ⟨.mod, " 7", true⟩ (.number ⟨false, [1], none, some ⟨true, [5, 0, 0]⟩⟩) =
        .error (.arithmetic .mod .divisionByZero) ∧
      evaluate ⟨.mod, "-0.0", false⟩ (.ofInt 7) = .error (.conversion .int "\"-0.0\"") ∧
      evaluate ⟨.mod, "-0.0", false⟩ (.string "7") = .error (.typeMismatch .arith .string) := by
  have seven : make .mod " 7" true = .ok ⟨.mod, " 7", true⟩ := if_pos (by decide)
  have zero : make .mod "-0.0" false = .ok ⟨.mod, "-0.0", false⟩ := if_pos (by decide)
  have takes : Takes ⟨.mod, " 7", true⟩ ⟨false, [1], none, some ⟨true, [5, 0, 0]⟩⟩
      (.float (.ofInt 7)) (.float (.zero false)) := ⟨_, _, by decide, by decide, rfl⟩
  obtain ⟨-, -, -, -, refused, -⟩ :=
    evaluate_faults seven (.number ⟨false, [1], none, some ⟨true, [5, 0, 0]⟩⟩)
  obtain ⟨-, -, -, unread, -, -⟩ := evaluate_faults zero (.ofInt 7)
  obtain ⟨-, -, mismatch, -⟩ := evaluate_faults zero (.string "7")
  exact ⟨(refused .mod).mpr ⟨rfl, rfl, _, _, _, rfl, takes, rfl, rfl⟩,
    (unread _).mpr ⟨⟨_, 7, rfl, by decide⟩, by decide, by decide⟩,
    (mismatch .arith .string).mpr ⟨nofun, rfl, rfl⟩⟩

end Arithmetic

end Reshape
