/-!
The operators of the arithmetic lookup and the targets of the cast lookup, with their written names.
-/

namespace Reshape

inductive Operator where
  | add
  | sub
  | mul
  | div
  | floorDiv
  | mod
  | pow
  deriving DecidableEq, Repr

namespace Operator

def symbol : Operator → String
  | add => "+"
  | sub => "-"
  | mul => "*"
  | div => "/"
  | floorDiv => "//"
  | mod => "%"
  | pow => "^"

def ofSymbol? : String → Option Operator
  | "+" => some add
  | "-" => some sub
  | "*" => some mul
  | "/" => some div
  | "//" => some floorDiv
  | "%" => some mod
  | "^" => some pow
  | _ => none

end Operator

/-- The types that a scalar can be cast to. -/
inductive ScalarType where
  | int
  | float
  | decimal
  | bool
  deriving DecidableEq, Repr

namespace ScalarType

def name : ScalarType → String
  | int => "int"
  | float => "float"
  | decimal => "decimal"
  | bool => "bool"

def ofName? : String → Option ScalarType
  | "int" => some int
  | "float" => some float
  | "decimal" => some decimal
  | "bool" => some bool
  | _ => none

end ScalarType

end Reshape
