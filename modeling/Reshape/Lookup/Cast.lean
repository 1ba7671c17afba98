import Reshape.Arguments
import Reshape.CompileError
import Reshape.Lookup.Error
import Reshape.Number.Binary64.Arithmetic
import Reshape.Number.Binary64.Shortest
import Reshape.Number.Word

/-!
The cast lookup: a scalar as an integer, a float, a decimal or a boolean. A cast to decimal keeps
every written digit.
-/

namespace Reshape.Cast

/-- Integers written as such and of at most 64 bits, with or without a sign, stay as they are. -/
def isWordLiteral (n : Numeral) : Bool :=
  n.integer?.any fun i => Word.least ≤ i && i ≤ 18446744073709551615

/-- The integer part of a number's float value, if it is in range. -/
def truncated? (n : Numeral) : Option Int :=
  (Binary64.ofNumeral n).truncate?.bind Word.fit?

def toInt? : Json → Option Json
  | .number n => if isWordLiteral n then some (.number n) else (truncated? n).map .ofInt
  | .bool b => some (.ofInt b.toNat)
  | .string s => (Word.read? (Text.trim s)).map .ofInt
  | _ => none

def toFloat? (node : Json) : Option Json := do
  let x ← match node with
    | .number n => some (Binary64.ofNumeral n)
    | .bool b => some (Binary64.ofInt b.toNat)
    | .string s => Binary64.read? (Text.trim s)
    | _ => none
  return .number (← x.toNumeral?)

/-- A plain numeral without superfluous zeros at its front and with at least one digit on each side
of its point. -/
def decimalNumeral (n : Numeral) : Numeral :=
  let whole := n.whole.dropWhile (·.val == 0)
  let fraction := n.fractionDigits
  ⟨n.negative, if whole.isEmpty then [Digit.zero] else whole,
    some (if fraction.isEmpty then [Digit.zero] else fraction), none⟩

def toDecimal? : Json → Option Json
  | .number n => some (.number (if n.isPlain then decimalNumeral n else n))
  | .bool b => some (.number (decimalNumeral (Numeral.ofInt b.toNat)))
  | .string s => do
    let n ← Numeral.read? (Text.trim s).toList
    if n.isPlain then some (.number (decimalNumeral n)) else none
  | _ => none

/-- A number is true if its float value is finite and not zero. -/
def toBool? : Json → Option Json
  | .bool b => some (.bool b)
  | .number n =>
    let x := Binary64.ofNumeral n
    some (.bool (x.isFinite && !x.isZero))
  | .string s => (Text.readSwitch? s).map .bool
  | _ => none

def cast? : ScalarType → Json → Option Json
  | .int => toInt?
  | .float => toFloat?
  | .decimal => toDecimal?
  | .bool => toBool?

/-- A value as a conversion error shows it: sequences and mappings by their kind only, strings
between quotes but not escaped. -/
def describe : Json → String
  | .string s => "\"" ++ s ++ "\""
  | .array items => (Json.array items).kind.name
  | .object fields => (Json.object fields).kind.name
  | node => node.text

def evaluate (target : ScalarType) (node : Json) : Except LookupError Json :=
  match cast? target node with
  | some v => .ok v
  | none => .error (.conversion target (describe node))

/-- The target of exactly this name. -/
def readType (name : String) : Except CompileError ScalarType :=
  match ScalarType.ofName? name with
  | some target => .ok target
  | none => .error (.unknownType name)

def ofArguments (a : Arguments) : Except CompileError ScalarType :=
  match a.positional, a.named with
  | [name], [] => readType name
  | _, _ => .error (.invalidArguments .notOneType)

end Reshape.Cast
