import Reshape.Proofs.Chain.MissingMemo
import Reshape.Proofs.Mapper.Trace

/-!
Evaluation as the assembly of what single chains give. A call fails with the error of a chain, or
because the root of a list gave no list; else its value is put together from the outcomes.
-/

namespace Reshape

namespace Chain

theorem each_of_invariant {may : Scope → Chain → Except EvalError Outcome → Prop} {scope : Scope}
    {invariant : Table → Prop} {chains : List Chain}
    (step : ∀ c ∈ chains, ∀ t, invariant t →
      may scope c (c.evaluate scope scope.root t).1 ∧ invariant (c.evaluate scope scope.root t).2)
    {t : Table} (held : invariant t) : Each may scope t chains := by
  induction chains generalizing t with
  | nil => trivial
  | cons c rest ih =>
    rw [List.forall_mem_cons] at step
    obtain ⟨given, kept⟩ := step.1 t held
    exact ⟨given, ih step.2 kept⟩

end Chain

namespace Mapper

/-! ### Assembly -/

section Assembly

variable (outcomes : Scope → Chain → Except EvalError Outcome)

mutual

/-- The outcome of a node, given those of the chains. -/
def assembleNode (scope : Scope) : Node → Except EvalError Outcome
  | .constant v => .ok (.value v)
  | .expression c => outcomes scope c
  | .nested entries => do
    return .value (.object (Fields.collect (← assembleEntries scope entries)))
  | .list root entries => do
    match ← listElements root (← outcomes scope root) with
    | none => return .skipped
    | some items =>
      let values ← items.mapM fun item =>
        (assembleEntries { scope with root := item } entries).map fun fields =>
          .object (Fields.collect fields)
      return .value (.array values)
  | .sequence items => do
    match ← assembleItems scope items with
    | none => return .skipped
    | some values => return .value (.array values)

def assembleEntries (scope : Scope) :
    List (String × Node) → Except EvalError (List (String × Json))
  | [] => .ok []
  | (key, node) :: rest => do
    let outcome ← assembleNode scope node
    return addEntry key outcome (← assembleEntries scope rest)

def assembleItems (scope : Scope) : List Node → Except EvalError (Option (List Json))
  | [] => .ok (some [])
  | node :: rest => do
    match ← assembleNode scope node with
    | .skipped => return none
    | .value v => return (← assembleItems scope rest).map (v :: ·)

end

/-- The value of a call, given the outcomes of the chains. -/
def assemble (p : Plan) (data context : Json) : Except EvalError Json := do
  return .object (Fields.collect (← assembleEntries outcomes ⟨data, data, context⟩ p))

end Assembly

variable {outcomes : Scope → Chain → Except EvalError Outcome}

abbrev Gives (outcomes : Scope → Chain → Except EvalError Outcome) (scope : Scope) (c : Chain)
    (given : Except EvalError Outcome) : Prop := given = outcomes scope c

theorem map_fst_runChain (c : Chain) (scope : Scope) (r : Run) :
    (runChain c scope r).map Prod.fst = (c.evaluate scope scope.root r.table).1 := by
  rw [runChain]
  split <;> simp [*, Except.map]

theorem elementsOf_of_runChain {root : Chain} {scope : Scope} {r r' : Run} {outcome : Outcome}
    {items : List Json} (run : runChain root scope r = .ok (outcome, r'))
    (elements : listElements root outcome = .ok (some items)) :
    elementsOf root scope r = items := by
  rw [elementsOf, run]
  simp only [elements]

theorem evaluateElement_map {scope : Scope} {entries : List (String × Node)} {item : Json}
    {assembled : Except EvalError (List (String × Json))}
    (same : (evaluateEntries { scope with root := item } {} entries).map Prod.fst = assembled) :
    (evaluateElement scope entries item).map (fun result => Json.object (Fields.collect result.1)) =
      assembled.map fun fields => Json.object (Fields.collect fields) := by
  rw [← same, evaluateElement]
  cases evaluateEntries { scope with root := item } {} entries <;> rfl

mutual

theorem evaluateNode_eq_assemble {scope : Scope} {r : Run} {node : Node}
    (each : (traceNode scope r node).Each (Gives outcomes) scope r.table) :
    (evaluateNode scope r node).map Prod.fst = assembleNode outcomes scope node := by
  match node with
  | .constant v => rfl
  | .expression c => rw [evaluateNode, assembleNode, map_fst_runChain, each.1.1]
  | .nested entries =>
    have same := evaluateEntries_eq_assemble each
    rw [evaluateNode, assembleNode, ← same]
    cases evaluateEntries scope r entries <;> rfl
  | .list root entries =>
    have given := map_fst_runChain root scope r
    rw [each.1.1] at given
    rw [assembleNode, ← given]
    match run : runChain root scope r with
    | .error e =>
      rw [evaluateNode, run]
      rfl
    | .ok (outcome, r') =>
      match elements : listElements root outcome with
      | .error e =>
        rw [evaluateNode, run]
        simp only [bind, Except.bind, Except.map, elements]
      | .ok none =>
        rw [evaluateNode, run]
        simp only [bind, Except.bind, Except.map, elements]
        rfl
      | .ok (some items) =>
        have all := each.2
        rw [traceNode, elementsOf_of_runChain run elements] at all
        have same := map_mapM_of_attempted fun item member =>
          evaluateElement_map (evaluateEntries_eq_assemble
            (Trace.each_of_ledgers fun l among =>
              all l (List.mem_flatMap.mpr ⟨item, member, among⟩)))
        rw [evaluateNode_list run elements]
        simp only [bind, Except.bind, Except.map, elements] at same ⊢
        rw [← same]
        cases items.mapM (evaluateElement scope entries) <;> rfl
  | .sequence items =>
    have same := evaluateItems_eq_assemble each
    rw [evaluateNode, assembleNode, ← same]
    match evaluateItems scope r items with
    | .error e => rfl
    | .ok (none, r') => rfl
    | .ok (some values, r') => rfl

theorem evaluateEntries_eq_assemble {scope : Scope} {r : Run} {entries : List (String × Node)}
    (each : (traceEntries scope r entries).Each (Gives outcomes) scope r.table) :
    (evaluateEntries scope r entries).map Prod.fst = assembleEntries outcomes scope entries := by
  match entries with
  | [] => rfl
  | (key, node) :: rest =>
    match run : evaluateNode scope r node with
    | .error e =>
      rw [traceEntries_cons_error run] at each
      have first := evaluateNode_eq_assemble each
      rw [evaluateEntries_cons_error run, assembleEntries, ← first, run]
      rfl
    | .ok (outcome, r') =>
      rw [traceEntries_cons_ok run, Trace.each_append_iff, ← (traceNode_passes run).2] at each
      have first := evaluateNode_eq_assemble each.1
      have later := evaluateEntries_eq_assemble each.2
      rw [evaluateEntries_cons_ok run, assembleEntries, ← first, ← later, run]
      cases evaluateEntries scope r' rest <;> rfl

theorem evaluateItems_eq_assemble {scope : Scope} {r : Run} {items : List Node}
    (each : (traceItems scope r items).Each (Gives outcomes) scope r.table) :
    (evaluateItems scope r items).map Prod.fst = assembleItems outcomes scope items := by
  match items with
  | [] => rfl
  | node :: rest =>
    match run : evaluateNode scope r node with
    | .error e =>
      rw [traceItems_cons_error run] at each
      have first := evaluateNode_eq_assemble each
      rw [evaluateItems_cons_error run, assembleItems, ← first, run]
      rfl
    | .ok (.skipped, r') =>
      rw [traceItems_cons_skipped run] at each
      have first := evaluateNode_eq_assemble each
      rw [evaluateItems_cons_skipped run, assembleItems, ← first, run]
      rfl
    | .ok (.value v, r') =>
      rw [traceItems_cons_value run, Trace.each_append_iff, ← (traceNode_passes run).2] at each
      have first := evaluateNode_eq_assemble each.1
      have later := evaluateItems_eq_assemble each.2
      rw [evaluateItems_cons_value run, assembleItems, ← first, ← later, run]
      cases evaluateItems scope r' rest <;> rfl

end

theorem evaluate_eq_assemble {m : Mapper} {data context : Json}
    (each : ∀ l ∈ ledgers m.plan data context,
      Chain.Each (Gives outcomes) l.scope .empty l.chains) :
    (m.evaluate data context).map Prod.fst = assemble outcomes m.plan data context := by
  have same := evaluateEntries_eq_assemble (Trace.each_of_ledgers each)
  rw [assemble, ← same, evaluate]
  cases evaluateEntries ⟨data, data, context⟩ {} m.plan <;> rfl

/-! ### Failures -/

abbrev Avoids (e : EvalError) (_ : Scope) (_ : Chain) (given : Except EvalError Outcome) : Prop :=
  given ≠ .error e

theorem listElements_ne_missingMemo (root : Chain) (outcome : Outcome) (key : String) :
    listElements root outcome ≠ .error (.missingMemo key) := by
  intro h
  unfold listElements at h
  split at h
  · cases h
  · split at h
    · cases h
    · rcases bind_eq_error_iff.mp h with h | ⟨given, -, h⟩
      · exact root.onFailure_ne_missingMemo _ key (by simp) h
      · split at h
        · cases h
        · split at h <;> cases h

mutual

theorem evaluateNode_ne_error {scope : Scope} {r : Run} {node : Node} {e : EvalError}
    (each : (traceNode scope r node).Each (Avoids e) scope r.table)
    (lists : ∀ root ∈ node.chains, ∀ outcome, listElements root outcome ≠ .error e) :
    evaluateNode scope r node ≠ .error e := by
  intro h
  match node with
  | .constant v => cases h
  | .expression c => exact each.1.1 (runChain_eq_error_iff.mp h)
  | .nested entries =>
    rw [evaluateNode] at h
    rcases bind_eq_error_iff.mp h with h | ⟨_, -, h⟩
    · exact evaluateEntries_ne_error each lists h
    · cases h
  | .list root entries =>
    match run : runChain root scope r with
    | .error e' =>
      rw [evaluateNode, run] at h
      obtain rfl := Except.error.inj h
      exact each.1.1 (runChain_eq_error_iff.mp run)
    | .ok (outcome, r') =>
      match elements : listElements root outcome with
      | .error e' =>
        rw [evaluateNode, run] at h
        simp only [bind, Except.bind, elements] at h
        obtain rfl := Except.error.inj h
        exact lists root List.mem_cons_self outcome elements
      | .ok none =>
        rw [evaluateNode, run] at h
        simp only [bind, Except.bind, elements] at h
        cases h
      | .ok (some items) =>
        have all := each.2
        rw [traceNode, elementsOf_of_runChain run elements] at all
        rw [evaluateNode_list run elements] at h
        match failed : items.mapM (evaluateElement scope entries) with
        | .ok results =>
          rw [failed] at h
          cases h
        | .error e' =>
          rw [failed] at h
          obtain rfl := Except.error.inj h
          obtain ⟨item, member, h⟩ := exists_of_mapM_eq_error failed
          refine evaluateEntries_ne_error (Trace.each_of_ledgers fun l among =>
              all l (List.mem_flatMap.mpr ⟨item, member, among⟩))
            (fun c among => lists c (List.mem_cons_of_mem _ among)) h
  | .sequence items =>
    rw [evaluateNode] at h
    rcases bind_eq_error_iff.mp h with h | ⟨⟨values, _⟩, -, h⟩
    · exact evaluateItems_ne_error each lists h
    · cases values <;> cases h

theorem evaluateEntries_ne_error {scope : Scope} {r : Run} {entries : List (String × Node)}
    {e : EvalError} (each : (traceEntries scope r entries).Each (Avoids e) scope r.table)
    (lists : ∀ root ∈ Node.entriesChains entries, ∀ outcome,
      listElements root outcome ≠ .error e) :
    evaluateEntries scope r entries ≠ .error e := by
  intro h
  match entries with
  | [] => cases h
  | (key, node) :: rest =>
    rw [Node.entriesChains, List.forall_mem_append] at lists
    match run : evaluateNode scope r node with
    | .error e' =>
      rw [evaluateEntries_cons_error run] at h
      obtain rfl := Except.error.inj h
      rw [traceEntries_cons_error run] at each
      exact evaluateNode_ne_error each lists.1 run
    | .ok (outcome, r') =>
      rw [evaluateEntries_cons_ok run] at h
      rw [traceEntries_cons_ok run, Trace.each_append_iff, ← (traceNode_passes run).2] at each
      match later : evaluateEntries scope r' rest with
      | .ok result =>
        rw [later] at h
        cases h
      | .error e' =>
        rw [later] at h
        obtain rfl := Except.error.inj h
        exact evaluateEntries_ne_error each.2 lists.2 later

theorem evaluateItems_ne_error {scope : Scope} {r : Run} {items : List Node} {e : EvalError}
    (each : (traceItems scope r items).Each (Avoids e) scope r.table)
    (lists : ∀ root ∈ Node.itemsChains items, ∀ outcome, listElements root outcome ≠ .error e) :
    evaluateItems scope r items ≠ .error e := by
  intro h
  match items with
  | [] => cases h
  | node :: rest =>
    rw [Node.itemsChains, List.forall_mem_append] at lists
    match run : evaluateNode scope r node with
    | .error e' =>
      rw [evaluateItems_cons_error run] at h
      obtain rfl := Except.error.inj h
      rw [traceItems_cons_error run] at each
      exact evaluateNode_ne_error each lists.1 run
    | .ok (.skipped, r') =>
      rw [evaluateItems_cons_skipped run] at h
      cases h
    | .ok (.value v, r') =>
      rw [evaluateItems_cons_value run] at h
      rw [traceItems_cons_value run, Trace.each_append_iff, ← (traceNode_passes run).2] at each
      match later : evaluateItems scope r' rest with
      | .ok result =>
        rw [later] at h
        cases h
      | .error e' =>
        rw [later] at h
        obtain rfl := Except.error.inj h
        exact evaluateItems_ne_error each.2 lists.2 later

end

/-- A call fails with an error of one of its chains, or because of the root of a list. -/
theorem evaluate_ne_error {m : Mapper} {data context : Json} {e : EvalError}
    (each : ∀ l ∈ ledgers m.plan data context, Chain.Each (Avoids e) l.scope .empty l.chains)
    (lists : ∀ root ∈ m.plan.chains, ∀ outcome, listElements root outcome ≠ .error e) :
    m.evaluate data context ≠ .error e := by
  intro h
  rw [evaluate] at h
  rcases bind_eq_error_iff.mp h with h | ⟨_, -, h⟩
  · exact evaluateEntries_ne_error (Trace.each_of_ledgers each) lists h
  · cases h

end Mapper

end Reshape
