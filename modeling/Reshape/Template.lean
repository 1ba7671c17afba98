import Reshape.Chain

/-!
Templates: what a mapper is to produce, before its paths are compiled.
-/

namespace Reshape

inductive Template where
  /-- A path, compiled with the inherited options. -/
  | expression (source : String)
  /-- A chain that is compiled already and used as it is. -/
  | chain (c : Chain)
  | constant (v : Json)
  | mapping (entries : List (String × Template))
  /-- A mapping for every element of what the root gives. -/
  | list (root template : Template)
  | sequence (items : List Template)

namespace Template

def kind : Template → TemplateKind
  | expression _ => .expression
  | chain _ => .chain
  | constant _ => .constant
  | mapping _ => .mapping
  | list _ _ => .list
  | sequence _ => .sequence

end Template

end Reshape
