import Reshape.Arguments
import Reshape.CompileError
import Reshape.Lookup.Error

/-!
The find lookup: the first element of a sequence whose fields meet every condition. The value of a
condition is text, so scalars are compared by their text: `id=7` is met by `7` and by `"7"`.
-/

namespace Reshape.Find

/-- A field and the text that it must have. -/
abbrev Condition := String × String

/-- Whether a field's value has this text. -/
def hasText (text : String) : Json → Bool
  | .string s => s = text
  | .number n => n.text = text
  | .bool b => (if b then "true" else "false") = text
  | .null => text = "null"
  | .array _ | .object _ => false

def Condition.holds (c : Condition) (item : Json) : Bool := (item.field? c.1).any (hasText c.2)

def evaluate (conditions : List Condition) : Json → Except LookupError Json
  | .array items =>
    match items.find? fun item => conditions.all fun c => Condition.holds c item with
    | some item => .ok item
    | none => .error .notFound
  | node => .error (.typeMismatch .find node.kind)

/-- The conditions of an argument list. -/
def ofArguments (a : Arguments) : Except CompileError (List Condition) :=
  if a.positional.isEmpty then .ok a.named
  else .error (.invalidArguments (.positionalConditions a.positional))

end Reshape.Find
