import Reshape.Template

/-!
Plans: compiled templates. A plan has the shape of its template, with a chain for every path.
-/

namespace Reshape

inductive Node where
  | constant (v : Json)
  | expression (c : Chain)
  | nested (entries : List (String × Node))
  /-- The entries are produced for every element of what the root gives. -/
  | list (root : Chain) (entries : List (String × Node))
  | sequence (items : List Node)

/-- The entries of an output mapping in the order of their declaration; keys may repeat. -/
abbrev Plan := List (String × Node)

def Node.kind : Node → String
  | constant _ => "constant"
  | expression _ => "expression"
  | nested _ => "nested"
  | list _ _ => "list"
  | sequence _ => "sequence"

namespace Plan

/-- A chain for a template that is a path or a chain without memo steps. -/
def compileChain (o : Options) (path : TemplatePath) : Template → Except CompileError Chain
  | .expression source => Chain.compile source o
  | .chain c => if c.hasMemo then .error (.invalidTemplate path .memoizedChain) else .ok c
  | template => .error (.invalidTemplate path (.notAnExpression template.kind))

mutual

/-- Compiles the template at a place, depth first; a list's root comes before its template. -/
def compileNode (o : Options) (path : TemplatePath) : Template → Except CompileError Node
  | .constant v => .ok (.constant v)
  | .mapping entries => .nested <$> compileEntries o path entries
  | .list root template => do
    let root ← compileChain o (path ++ [.listRoot]) root
    match template with
    | .mapping entries => .list root <$> compileEntries o (path ++ [.listTemplate]) entries
    | _ => .error (.invalidTemplate (path ++ [.listTemplate]) .listTemplateNotAMapping)
  | .sequence items => .sequence <$> compileItems o path 0 items
  | template => .expression <$> compileChain o path template

def compileEntries (o : Options) (path : TemplatePath) :
    List (String × Template) → Except CompileError (List (String × Node))
  | [] => .ok []
  | (key, template) :: rest => do
    let node ← compileNode o (path ++ [.entry key]) template
    return (key, node) :: (← compileEntries o path rest)

def compileItems (o : Options) (path : TemplatePath) (index : Nat) :
    List Template → Except CompileError (List Node)
  | [] => .ok []
  | template :: rest => do
    let node ← compileNode o (path ++ [.element index]) template
    return node :: (← compileItems o path (index + 1) rest)

end

/-- The plan of a template, which must be a mapping. -/
def ofTemplate (o : Options) : Template → Except CompileError Plan
  | .mapping entries => compileEntries o [] entries
  | _ => .error (.invalidTemplate [] .topNotAMapping)

end Plan

end Reshape
