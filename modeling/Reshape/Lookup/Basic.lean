import Reshape.Lookup.Arithmetic
import Reshape.Lookup.Cast
import Reshape.Lookup.Find
import Reshape.Lookup.Key
import Reshape.Table

/-!
Lookups: what one step of a chain does to a node. The built-in ones see the node alone; a custom
lookup also sees the data around it and may use the prefix table.
-/

namespace Reshape

/-- The data around a chain: the data of its own scope, that of the whole call, and the caller's
context. -/
structure Scope where
  root : Json
  superRoot : Json
  context : Json

inductive Lookup where
  | key (key : String)
  | find (conditions : List Find.Condition)
  | cast (target : ScalarType)
  | arith (arithmetic : Arithmetic)
  /-- Reuses the prefix stored under `key`. -/
  | memo (key : String)
  | custom (run : Scope → Json → Table → Except LookupError Json × Table)

namespace Lookup

/-- The name of the lookup's kind. -/
def kind : Lookup → String
  | key _ => "key"
  | find _ => "find"
  | cast _ => "as_type"
  | arith _ => "arith"
  | memo _ => "memo"
  | custom _ => "custom"

def isMemo : Lookup → Bool
  | memo _ => true
  | _ => false

/-- Runs the lookup on a node; the table comes back as the lookup leaves it. -/
def evaluate (l : Lookup) (scope : Scope) (node : Json) (t : Table) :
    Except LookupError Json × Table :=
  match l with
  | key k => (Key.evaluate k node, t)
  | find conditions => (Find.evaluate conditions node, t)
  | cast target => (Cast.evaluate target node, t)
  | arith a => (a.evaluate node, t)
  | memo k => t.fetch k
  | custom run => run scope node t

end Lookup

end Reshape
