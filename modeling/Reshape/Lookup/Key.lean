import Reshape.Arguments
import Reshape.CompileError
import Reshape.Lookup.Error
import Reshape.Number.Word

/-!
The key lookup: a field of a mapping or an element of a sequence. On a mapping the key is compared
as it is written; on a sequence it is read as an index, and a negative one counts from the end.
-/

namespace Reshape.Key

/-- The index that a key stands for on a sequence. -/
def index? (key : String) : Option Int := Word.read? (Text.trim key)

/-- The element at an index, counted from the end if negative. -/
def element? (items : List Json) (index : Int) : Option Json :=
  let position := if index < 0 then index + items.length else index
  if 0 ≤ position then items[position.toNat]? else none

def evaluate (key : String) : Json → Except LookupError Json
  | .object fields =>
    match fields.lookup key with
    | some v => .ok v
    | none => .error (.keyNotFound key)
  | .array items =>
    match index? key with
    | none => .error (.invalidIndex key)
    | some index =>
      match element? items index with
      | some v => .ok v
      | none => .error (.indexOutOfRange index items.length)
  | node => .error (.typeMismatch .key node.kind)

/-- The key of an argument list. -/
def ofArguments (a : Arguments) : Except CompileError String :=
  match a.positional, a.named with
  | [key], [] => .ok key
  | _, _ => .error (.invalidArguments .notOneKey)

end Reshape.Key
