import Reshape.Number.Numeral
import Reshape.Fields

/-!
JSON values. Numbers keep their text and objects the order of their fields, so that data which no
lookup touches comes out as it went in.
-/

namespace Reshape

inductive Json where
  | null
  | bool (b : Bool)
  | number (n : Numeral)
  | string (s : String)
  | array (items : List Json)
  /-- Fields in order, each key once. -/
  | object (fields : List (String × Json))
  deriving Inhabited

/-- What kind of value it is, as diagnostics name it. -/
inductive Kind where
  | null
  | bool
  | number
  | string
  | sequence
  | mapping
  deriving DecidableEq, Repr

def Kind.name : Kind → String
  | null => "null"
  | bool => "bool"
  | number => "number"
  | string => "string"
  | sequence => "sequence"
  | mapping => "mapping"

namespace Json

def kind : Json → Kind
  | null => .null
  | bool _ => .bool
  | number _ => .number
  | string _ => .string
  | array _ => .sequence
  | object _ => .mapping

def ofInt (i : Int) : Json := number (Numeral.ofInt i)

/-- The field under `key`, if the value is an object that has one. -/
def field? (key : String) : Json → Option Json
  | object fields => fields.lookup key
  | _ => none

end Json

end Reshape
