import Reshape.Arguments
import Reshape.CompileError
import Reshape.Lookup.Error
import Reshape.Number.Binary64.Bits
import Reshape.Number.Binary64.Decimal
import Reshape.Number.Binary64.Shortest
import Reshape.Number.Decimal.Scientific
import Reshape.Number.Power
import Reshape.Number.Word

/-!
The arithmetic lookup: an operation on a number and an operand written in the path. The number's
notation decides in which arithmetic: integers of a word are exact or refused, other plain numbers
are computed as decimals, and those with an exponent or with too many digits as floats.
-/

namespace Reshape

/-- `operator node operand`, or `operator operand node` where reversed. -/
structure Arithmetic where
  operator : Operator
  operand : String
  reverse : Bool
  deriving DecidableEq, Repr

namespace Arithmetic

inductive Quantity where
  | integer (i : Int)
  | decimal (d : Decimal)
  | float (x : Binary64)
  deriving DecidableEq, Repr

namespace Quantity

/-- Reads a number in the first arithmetic that has it. -/
def ofNumeral? (n : Numeral) : Option Quantity :=
  match Word.ofNumeral? n with
  | some i => some (integer i)
  | none =>
    match Decimal.ofPlain? n with
    | some d => some (decimal d)
    | none => (Binary64.ofNumeral n).finite?.map float

def toNumeral? : Quantity → Option Numeral
  | integer i => some (Numeral.ofInt i)
  | decimal d => some d.toNumeral
  | float x => x.toNumeral?

end Quantity

/-! ### The three arithmetics -/

def orFault {α : Type} (fault : ArithmeticFault) : Option α → Except ArithmeticFault α
  | some a => .ok a
  | none => .error fault

def checkDivisor (zero : Bool) : Except ArithmeticFault Unit :=
  if zero then .error .divisionByZero else .ok ()

/-- A remainder and its divisor have different signs. -/
def opposed (r b : Int) : Bool := r ≠ 0 && decide (r < 0) != decide (b < 0)

/-- The quotient rounded down: one less than the quotient toward zero, if that leaves a remainder
opposed to the divisor. -/
def floorDiv? (a b : Int) : Option Int := do
  let q ← Word.div? a b
  let r ← Word.rem? a b
  if opposed r b then Word.fit? (q - 1) else some q

/-- The remainder moved to the sign of the divisor. -/
def floorMod? (a b : Int) : Option Int := do
  let r ← Word.rem? a b
  if opposed r b then Word.fit? (r + b) else some r

/-- `a ^ n` by repeated squaring. Where `n` has more than 32 bits nothing is multiplied: of all
words only 0, 1 and -1 have a power in range there. -/
def power? (a : Int) (n : Nat) : Option Int :=
  if n < twoPow 32 then Reshape.power? Word.mul? 1 a n
  else if a = 0 ∨ a = 1 then some a
  else if a = -1 then some (if n % 2 = 0 then 1 else -1)
  else none

def onIntegers (op : Operator) (a b : Int) : Except ArithmeticFault Quantity := do
  match op with
  | .add => .integer <$> orFault .integerOverflow (Word.fit? (a + b))
  | .sub => .integer <$> orFault .integerOverflow (Word.fit? (a - b))
  | .mul => .integer <$> orFault .integerOverflow (Word.mul? a b)
  | .div =>
    checkDivisor (b = 0)
    return .float ((Binary64.ofInt a).div (Binary64.ofInt b))
  | .floorDiv =>
    checkDivisor (b = 0)
    .integer <$> orFault .integerOverflow (floorDiv? a b)
  | .mod =>
    checkDivisor (b = 0)
    .integer <$> orFault .integerOverflow (floorMod? a b)
  | .pow =>
    if 0 ≤ b then .integer <$> orFault .integerOverflow (power? a b.toNat)
    else return .float ((Binary64.ofInt a).pow (Binary64.ofInt b))

def onDecimals (op : Operator) (a b : Decimal) : Except ArithmeticFault Quantity := do
  match op with
  | .add => .decimal <$> orFault .decimalOverflow (a.add? b)
  | .sub => .decimal <$> orFault .decimalOverflow (a.sub? b)
  | .mul => .decimal <$> orFault .decimalOverflow (a.mul? b)
  | .div =>
    checkDivisor b.isZero
    .decimal <$> orFault .decimalOverflow (a.div? b)
  | .floorDiv =>
    checkDivisor b.isZero
    .decimal <$> orFault .decimalOverflow (a.floorDiv? b)
  | .mod =>
    checkDivisor b.isZero
    .decimal <$> orFault .decimalOverflow (a.floorMod? b)
  | .pow =>
    match b.integer?.bind Word.fit? with
    | some n => .decimal <$> orFault .decimalOverflow (a.pow? n)
    | none => return .float ((Binary64.ofDecimal a).pow (Binary64.ofDecimal b))

def onFloats (op : Operator) (a b : Binary64) : Except ArithmeticFault Binary64 := do
  match op with
  | .add => return a.add b
  | .sub => return a.sub b
  | .mul => return a.mul b
  | .div =>
    checkDivisor b.isZero
    return a.div b
  | .floorDiv =>
    checkDivisor b.isZero
    return (a.div b).floor
  | .mod =>
    checkDivisor b.isZero
    return a.sub (b.mul (a.div b).floor)
  | .pow => return a.pow b

def apply (op : Operator) : Quantity → Quantity → Except ArithmeticFault Quantity
  | .integer a, .integer b => onIntegers op a b
  | .decimal a, .decimal b => onDecimals op a b
  | .float a, .float b => .float <$> onFloats op a b
  | _, _ => .error .mixedKinds

/-! ### Evaluation -/

/-- Reads the operand in the arithmetic of a given number. -/
def operandLike (a : Arithmetic) (value : Quantity) : Except LookupError Quantity :=
  let text := Text.trim a.operand
  let read : ScalarType × Option Quantity := match value with
    | .integer _ => (.int, (Word.read? text).map .integer)
    | .decimal _ =>
      (.decimal, (Numeral.read? text.toList).bind fun n =>
        ((Decimal.ofPlain? n).or (Decimal.ofScientific? n)).map .decimal)
    | .float _ => (.float, (Binary64.read? text).map .float)
  match read with
  | (_, some operand) => .ok operand
  | (target, none) => .error (.conversion target ("\"" ++ a.operand ++ "\""))

def fault (a : Arithmetic) (fault : ArithmeticFault) : LookupError := .arithmetic a.operator fault

def evaluate (a : Arithmetic) : Json → Except LookupError Json
  | .number n => do
    let value ← (orFault .unrepresentable (Quantity.ofNumeral? n)).mapError a.fault
    let operand ← a.operandLike value
    let (left, right) := if a.reverse then (operand, value) else (value, operand)
    let result ← (apply a.operator left right).mapError a.fault
    return .number (← (orFault .notFinite result.toNumeral?).mapError a.fault)
  | node => .error (.typeMismatch .arith node.kind)

/-! ### Construction -/

/-- The lookup, if the operand is a finite number. -/
def make (operator : Operator) (operand : String) (reverse : Bool) :
    Except CompileError Arithmetic :=
  if (Binary64.read? (Text.trim operand)).isSome then .ok ⟨operator, operand, reverse⟩
  else .error (.invalidArguments (.operandNotANumber operand))

def readOperator (symbol : String) : Except CompileError Operator :=
  match Operator.ofSymbol? symbol with
  | some op => .ok op
  | none => .error (.unknownOperator symbol)

/-- An argument given by its position or by its name, but not by both. -/
def argument (a : Arguments) (position : Nat) (name : String) :
    Except ArgumentFault (Option String) :=
  match a.positional[position]?, a.named.lookup name with
  | some _, some _ => .error (.givenTwice name)
  | some v, none | none, some v => .ok (some v)
  | none, none => .ok none

/-- The operator, the operand and the flag of an argument list, as they are written. -/
def writtenArguments (a : Arguments) : Except ArgumentFault (String × String × Bool) := do
  match a.named.find? fun field => field.1 ∉ ["op", "operand", "reverse"] with
  | some field => .error (.unknownArgument field.1)
  | none => pure ()
  if 3 < a.positional.length then .error (.tooManyPositional a.positional.length)
  let some operator ← argument a 0 "op" | .error .missingOperator
  let some operand ← argument a 1 "operand" | .error .missingOperand
  let reverse ← match ← argument a 2 "reverse" with
    | none => pure false
    | some flag =>
      match Text.readSwitch? flag with
      | some b => pure b
      | none => .error (.invalidReverseFlag flag)
  return (operator, operand, reverse)

def ofArguments (a : Arguments) : Except CompileError Arithmetic := do
  let (operator, operand, reverse) ← (writtenArguments a).mapError .invalidArguments
  make (← readOperator operator) operand reverse

end Arithmetic

end Reshape
