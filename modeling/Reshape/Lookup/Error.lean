import Reshape.Json.Basic
import Reshape.Lookup.Operator

/-!
Failures of evaluation: what can go wrong in one lookup, and what a chain or a mapper makes of it.
-/

namespace Reshape

/-- The lookups that apply to some kinds of values only. -/
inductive Restricted where
  | key
  | find
  | arith
  /-- The elements of a list template. -/
  | list
  deriving DecidableEq, Repr

def Restricted.name : Restricted → String
  | key => "key"
  | find => "find"
  | arith => "arith"
  | list => "list"

inductive ArithmeticFault where
  | unrepresentable
  | mixedKinds
  | divisionByZero
  | integerOverflow
  | decimalOverflow
  | notFinite
  deriving DecidableEq, Repr

def ArithmeticFault.message : ArithmeticFault → String
  | unrepresentable => "unrepresentable number"
  | mixedKinds => "mixed numeric kinds"
  | divisionByZero => "division by zero"
  | integerOverflow => "integer overflow"
  | decimalOverflow => "decimal overflow"
  | notFinite => "result is not finite"

mutual

/-- Failure of one step. Its chain's fail mode applies, except to a missing memo. -/
inductive LookupError where
  | keyNotFound (key : String)
  | indexOutOfRange (index : Int) (length : Nat)
  | invalidIndex (key : String)
  | typeMismatch (lookup : Restricted) (found : Kind)
  | notFound
  /-- The value is shown as `describe` gives it. -/
  | conversion (target : ScalarType) (value : String)
  | arithmetic (operator : Operator) (fault : ArithmeticFault)
  | missingMemo (key : String)
  | nested (cause : EvalError)
  | custom (message : String)

/-- Failure of a chain or of a mapper. -/
inductive EvalError where
  | lookup (source step : String) (cause : LookupError)
  | missingMemo (key : String)
  | notASequence (source : String) (found : Kind)

end

deriving instance DecidableEq for LookupError, EvalError

/-- A memo step has nothing to reuse. -/
def missingMemoMessage (key : String) : String :=
  s!"memoized prefix `{key}` is missing from the lookup table"

mutual

def LookupError.message : LookupError → String
  | .keyNotFound key => s!"key `{key}` not found"
  | .indexOutOfRange index length =>
    s!"index {index} out of range for sequence of length {length}"
  | .invalidIndex key => s!"`{key}` is not a valid sequence index"
  | .typeMismatch lookup found => s!"`{lookup.name}` lookup cannot be applied to {found.name}"
  | .notFound => "no element matches all conditions"
  | .conversion target value => s!"cannot convert {value} to {target.name}"
  | .arithmetic operator fault => s!"arithmetic `{operator.symbol}` failed: {fault.message}"
  | .missingMemo key => missingMemoMessage key
  | .nested cause => s!"nested expression failed: {cause.message}"
  | .custom message => message

def EvalError.message : EvalError → String
  | .lookup source step cause => s!"step `{step}` of `{source}` failed: {cause.message}"
  | .missingMemo key => missingMemoMessage key
  | .notASequence source found =>
    s!"list root `{source}` evaluated to {found.name}, expected a sequence"

end

end Reshape
