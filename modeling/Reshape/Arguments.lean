import Reshape.Fields

/-!
Arguments of a bracketed step, `<name:a,b,key=value>`.
-/

namespace Reshape

structure Arguments where
  positional : List String := []
  /-- Ascending by name, each name once. -/
  named : List (String × String) := []
  deriving DecidableEq, Repr

namespace Arguments

/-- Adds a named argument; an earlier one of that name is replaced. -/
def withNamed (a : Arguments) (name value : String) : Arguments :=
  { a with named := Fields.insertSorted name value a.named }

def isEmpty (a : Arguments) : Bool := a.positional.isEmpty && a.named.isEmpty

end Arguments

end Reshape
