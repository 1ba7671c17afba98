import Reshape.Plan.Manifest

/-!
Mappers: compiled templates that are run on data. A call has one prefix table; nested mappings share
it, and every element of a list gets one of its own, because prefixes hold for one piece of data.
-/

namespace Reshape

structure Mapper where
  plan : Plan
  manifest : Manifest

namespace Mapper

/-- Compiles a template, and lets chains share prefixes unless the options forbid it. -/
def compile (template : Template) (o : Options) : Except CompileError Mapper := do
  let plan ← Plan.ofTemplate o template
  let (plan, sharing) := if o.optimize then plan.share else (plan, {})
  return ⟨plan, .ofPlan plan sharing⟩

/-- The first node under a key of the top-level mapping. -/
def get? (m : Mapper) (key : String) : Option Node := m.plan.lookup key

/-! ### Evaluation -/

/-- The table of a scope, and the counters of the tables of list elements that are done. -/
structure Run where
  table : Table := .empty
  elements : Stats := {}

def Run.stats (r : Run) : Stats := r.elements.add r.table.stats

def runChain (c : Chain) (scope : Scope) (r : Run) : Except EvalError (Outcome × Run) :=
  match c.evaluate scope scope.root r.table with
  | (.ok outcome, table) => .ok (outcome, { r with table })
  | (.error e, _) => .error e

/-- The elements that a root's value has, where it can have any: null has none. -/
def elements? : Json → Option (List Json)
  | .null => some []
  | .array items => some items
  | _ => none

/-- The elements of a list, or none where the list is skipped. A root of another kind is handled as
if its last step had failed, and a default that takes its place must have elements. -/
def listElements (root : Chain) : Outcome → Except EvalError (Option (List Json))
  | .skipped => .ok none
  | .value v =>
    match elements? v with
    | some items => .ok (some items)
    | none => do
      let step := (root.steps.getLast?.map Step.raw).getD ""
      match ← root.onFailure step (.typeMismatch .list v.kind) with
      | .skipped => return none
      | .value v =>
        match elements? v with
        | some items => return some items
        | none => .error (.notASequence root.source v.kind)

mutual

def evaluateNode (scope : Scope) (r : Run) : Node → Except EvalError (Outcome × Run)
  | .constant v => .ok (.value v, r)
  | .expression c => runChain c scope r
  | .nested entries => do
    let (fields, r) ← evaluateEntries scope r entries
    return (.value (.object (Fields.collect fields)), r)
  | .list root entries => do
    let (outcome, r) ← runChain root scope r
    match ← listElements root outcome with
    | none => return (.skipped, r)
    | some items =>
      let results ← items.mapM fun item => evaluateEntries { scope with root := item } {} entries
      let values := results.map fun result => Json.object (Fields.collect result.1)
      let stats := results.foldl (fun stats result => stats.add result.2.stats) r.elements
      return (.value (.array values), { r with elements := stats })
  | .sequence items => do
    let (values, r) ← evaluateItems scope r items
    match values with
    | none => return (.skipped, r)
    | some values => return (.value (.array values), r)

/-- The entries that are not skipped, with their values. -/
def evaluateEntries (scope : Scope) (r : Run) :
    List (String × Node) → Except EvalError (List (String × Json) × Run)
  | [] => .ok ([], r)
  | (key, node) :: rest => do
    let (outcome, r) ← evaluateNode scope r node
    let (fields, r) ← evaluateEntries scope r rest
    match outcome with
    | .value v => return ((key, v) :: fields, r)
    | .skipped => return (fields, r)

/-- The values of a sequence's items; none, without looking further, once one is skipped. -/
def evaluateItems (scope : Scope) (r : Run) :
    List Node → Except EvalError (Option (List Json) × Run)
  | [] => .ok (some [], r)
  | node :: rest => do
    match ← evaluateNode scope r node with
    | (.skipped, r) => return (none, r)
    | (.value v, r) =>
      let (values, r) ← evaluateItems scope r rest
      return (values.map (v :: ·), r)

end

/-- Maps data; also the sums of the counters of all tables of the call. -/
def evaluate (m : Mapper) (data context : Json) : Except EvalError (Json × Stats) := do
  let (fields, r) ← evaluateEntries ⟨data, data, context⟩ {} m.plan
  return (.object (Fields.collect fields), r.stats)

end Mapper

end Reshape
