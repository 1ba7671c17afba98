import Reshape.Plan.Sharing

/-!
Manifests: what a compiled plan consists of.
-/

namespace Reshape

/-- Counts over a whole plan, list templates included. -/
structure Manifest where
  /-- Entries of all mappings. -/
  fields : Nat := 0
  chains : Nat := 0
  steps : Nat := 0
  lists : Nat := 0
  /-- Scopes opened for sharing. -/
  scopes : Nat := 0
  /-- Chains that start from a shared prefix. -/
  reuses : Nat := 0
  deriving DecidableEq, Repr

namespace Manifest

def add (a b : Manifest) : Manifest where
  fields := a.fields + b.fields
  chains := a.chains + b.chains
  steps := a.steps + b.steps
  lists := a.lists + b.lists
  scopes := a.scopes + b.scopes
  reuses := a.reuses + b.reuses

def ofChain (c : Chain) : Manifest := { chains := 1, steps := c.steps.length }

mutual

def ofNode : Node → Manifest
  | .constant _ => {}
  | .expression c => ofChain c
  | .nested entries => ofEntries entries
  | .list root entries => ({ lists := 1 } : Manifest).add ((ofChain root).add (ofEntries entries))
  | .sequence items => ofItems items

def ofEntries : List (String × Node) → Manifest
  | [] => {}
  | (_, node) :: rest => ({ fields := 1 } : Manifest).add ((ofNode node).add (ofEntries rest))

def ofItems : List Node → Manifest
  | [] => {}
  | node :: rest => (ofNode node).add (ofItems rest)

end

/-- The manifest of a plan and of what sharing did to it. -/
def ofPlan (p : Plan) (s : Plan.Sharing) : Manifest :=
  { ofEntries p with scopes := s.scopes, reuses := s.reuses }

/-- The manifest on one line. Compilation is not timed, so the last counter is always zero. -/
def summary (m : Manifest) : String :=
  s!"fields={m.fields} chains={m.chains} steps={m.steps} lists={m.lists} scopes={m.scopes} " ++
    s!"memo_rewrites={m.reuses} compile_us=0"

end Manifest

end Reshape
