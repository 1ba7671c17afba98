import Reshape.Mapper
import Reshape.Proofs.Chain.Evaluation
import Reshape.Proofs.Plan.Chains

/-!
Traces: which chains run on which table while a plan is evaluated. The table at any point is what
the chains before it have left, and the result is put together from what the chains give.
-/

namespace Reshape

/-! ### Chains on one table -/

namespace Chain

/-- The table that chains leave when they run on it in turn. -/
def tableAfter (scope : Scope) (t : Table) (chains : List Chain) : Table :=
  chains.foldl (fun t c => (c.evaluate scope scope.root t).2) t

/-- Each chain gives what it may when all run on the table in turn. -/
def Each (may : Scope → Chain → Except EvalError Outcome → Prop) (scope : Scope) (t : Table) :
    List Chain → Prop
  | [] => True
  | c :: rest =>
    may scope c (c.evaluate scope scope.root t).1 ∧
      Each may scope (c.evaluate scope scope.root t).2 rest

/-- Only the last chain may fail. -/
def Proceeds (scope : Scope) (t : Table) : List Chain → Prop
  | [] => True
  | c :: rest =>
    (rest ≠ [] → ∃ outcome, (c.evaluate scope scope.root t).1 = .ok outcome) ∧
      Proceeds scope (c.evaluate scope scope.root t).2 rest

def Passes (scope : Scope) (t : Table) (chains : List Chain) : Prop :=
  Each (fun _ _ given => ∃ outcome, given = .ok outcome) scope t chains

variable {may : Scope → Chain → Except EvalError Outcome → Prop} {scope : Scope} {t : Table}

theorem tableAfter_append (before rest : List Chain) :
    tableAfter scope t (before ++ rest) = tableAfter scope (tableAfter scope t before) rest :=
  List.foldl_append

theorem each_append {before rest : List Chain} :
    Each may scope t (before ++ rest) ↔
      Each may scope t before ∧ Each may scope (tableAfter scope t before) rest := by
  induction before generalizing t with
  | nil => exact (iff_of_eq (true_and _)).symm
  | cons c before ih => rw [List.cons_append, Each, Each, ih, and_assoc]; rfl

theorem Passes.append_proceeds {before rest : List Chain} (passes : Passes scope t before)
    (proceeds : Proceeds scope (tableAfter scope t before) rest) :
    Proceeds scope t (before ++ rest) := by
  induction before generalizing t with
  | nil => exact proceeds
  | cons c before ih => exact ⟨fun _ => passes.1, ih passes.2 proceeds⟩

theorem contains_tableAfter {chains : List Chain} {path : String}
    (keeps : ∀ c ∈ chains, ∀ step ∈ c.steps, step.lookup.KeepsEntries) (held : t.contains path) :
    (tableAfter scope t chains).contains path := by
  induction chains generalizing t with
  | nil => exact held
  | cons c rest ih =>
    rw [List.forall_mem_cons] at keeps
    exact ih keeps.2 (contains_evaluate keeps.1 scope scope.root held)

end Chain

/-- The chains that run on one table that is empty at first, in turn. -/
structure Ledger where
  scope : Scope
  chains : List Chain

/-- What the chain of this number gives. -/
def Ledger.outcome? (l : Ledger) (number : Nat) : Option (Except EvalError Outcome) :=
  l.chains[number]?.map fun c =>
    (c.evaluate l.scope l.scope.root
      (Chain.tableAfter l.scope .empty (l.chains.take number))).1

/-- Which chains run. -/
structure Trace where
  /-- Those on the table at hand. -/
  own : List Chain := []
  /-- Those for elements of lists, which get tables of their own. -/
  inner : List Ledger := []

namespace Trace

def append (first second : Trace) : Trace :=
  ⟨first.own ++ second.own, first.inner ++ second.inner⟩

def chains (trace : Trace) : List Chain := trace.own ++ trace.inner.flatMap Ledger.chains

/-- The tables of a trace that starts with an empty one. -/
def ledgers (scope : Scope) (trace : Trace) : List Ledger := ⟨scope, trace.own⟩ :: trace.inner

def Each (may : Scope → Chain → Except EvalError Outcome → Prop) (scope : Scope) (t : Table)
    (trace : Trace) : Prop :=
  Chain.Each may scope t trace.own ∧ ∀ l ∈ trace.inner, Chain.Each may l.scope .empty l.chains

theorem each_of_ledgers {may : Scope → Chain → Except EvalError Outcome → Prop} {scope : Scope}
    {trace : Trace}
    (all : ∀ l ∈ trace.ledgers scope, Chain.Each may l.scope .empty l.chains) :
    trace.Each may scope ({} : Mapper.Run).table :=
  List.forall_mem_cons.mp all

def Proceeds (scope : Scope) (t : Table) (trace : Trace) : Prop :=
  Chain.Proceeds scope t trace.own ∧
    ∀ l ∈ trace.inner, Chain.Proceeds l.scope .empty l.chains

theorem append_empty (trace : Trace) : trace.append {} = trace := by
  simp [append]

theorem mem_chains_append {first second : Trace} {c : Chain} :
    c ∈ (first.append second).chains ↔ c ∈ first.chains ∨ c ∈ second.chains := by
  simp only [chains, append, List.flatMap_append, List.mem_append]
  tauto

theorem mem_chains_of_mem_ledgers {trace : Trace} {scope : Scope} {c : Chain} :
    c ∈ (trace.ledgers scope).flatMap Ledger.chains ↔ c ∈ trace.chains := by
  rw [ledgers, List.flatMap_cons, chains]

theorem each_append_iff {may : Scope → Chain → Except EvalError Outcome → Prop} {scope : Scope}
    {t : Table} {first second : Trace} :
    (first.append second).Each may scope t ↔
      first.Each may scope t ∧ second.Each may scope (Chain.tableAfter scope t first.own) := by
  simp only [Each, append, Chain.each_append, List.forall_mem_append]
  tauto

theorem Proceeds.append {scope : Scope} {t : Table} {first second : Trace}
    (proceeds : first.Proceeds scope t) (passes : Chain.Passes scope t first.own)
    (later : second.Proceeds scope (Chain.tableAfter scope t first.own)) :
    (first.append second).Proceeds scope t :=
  ⟨passes.append_proceeds later.1, List.forall_mem_append.mpr ⟨proceeds.2, later.2⟩⟩

end Trace

namespace Mapper

/-! ### The trace of an evaluation -/

/-- The elements that the template of a list is evaluated for, if no element fails. -/
def elementsOf (root : Chain) (scope : Scope) (r : Run) : List Json :=
  match runChain root scope r with
  | .ok (outcome, _) =>
    match listElements root outcome with
    | .ok (some items) => items
    | _ => []
  | .error _ => []

def addEntry (key : String) (outcome : Outcome) (fields : List (String × Json)) :
    List (String × Json) :=
  match outcome with
  | .value v => (key, v) :: fields
  | .skipped => fields

/-- Evaluates the template of a list for one element, with a table of its own. -/
def evaluateElement (scope : Scope) (entries : List (String × Node)) (item : Json) :
    Except EvalError (List (String × Json) × Run) :=
  evaluateEntries { scope with root := item } {} entries

mutual

def traceNode (scope : Scope) (r : Run) : Node → Trace
  | .constant _ => {}
  | .expression c => { own := [c] }
  | .nested entries => traceEntries scope r entries
  | .list root entries =>
    let items := attempted (evaluateElement scope entries) (elementsOf root scope r)
    { own := [root]
      inner := items.flatMap fun item =>
        (traceEntries { scope with root := item } {} entries).ledgers { scope with root := item } }
  | .sequence items => traceItems scope r items

def traceEntries (scope : Scope) (r : Run) : List (String × Node) → Trace
  | [] => {}
  | (_, node) :: rest =>
    (traceNode scope r node).append <|
      match evaluateNode scope r node with
      | .ok (_, r) => traceEntries scope r rest
      | .error _ => {}

def traceItems (scope : Scope) (r : Run) : List Node → Trace
  | [] => {}
  | node :: rest =>
    (traceNode scope r node).append <|
      match evaluateNode scope r node with
      | .ok (.value _, r) => traceItems scope r rest
      | _ => {}

end

/-- All tables of a call, each with the chains that run on it. -/
def ledgers (p : Plan) (data context : Json) : List Ledger :=
  (traceEntries ⟨data, data, context⟩ {} p).ledgers ⟨data, data, context⟩

section Equations

variable {scope : Scope} {r r' : Run} {key : String} {node : Node} {outcome : Outcome} {v : Json}
  {e : EvalError}

theorem evaluateEntries_cons_ok (run : evaluateNode scope r node = .ok (outcome, r'))
    (rest : List (String × Node)) :
    evaluateEntries scope r ((key, node) :: rest) =
      (evaluateEntries scope r' rest).map fun result => (addEntry key outcome result.1, result.2) := by
  rw [evaluateEntries, run]
  cases later : evaluateEntries scope r' rest <;> cases outcome <;>
    simp [bind, Except.bind, Except.map, pure, Except.pure, later, addEntry]

theorem evaluateEntries_cons_error (run : evaluateNode scope r node = .error e)
    (rest : List (String × Node)) : evaluateEntries scope r ((key, node) :: rest) = .error e := by
  rw [evaluateEntries, run]
  rfl

theorem evaluateItems_cons_value (run : evaluateNode scope r node = .ok (.value v, r'))
    (rest : List Node) :
    evaluateItems scope r (node :: rest) =
      (evaluateItems scope r' rest).map fun result => (result.1.map (v :: ·), result.2) := by
  rw [evaluateItems, run]
  cases later : evaluateItems scope r' rest <;>
    simp [bind, Except.bind, Except.map, pure, Except.pure, later]

theorem evaluateItems_cons_skipped (run : evaluateNode scope r node = .ok (.skipped, r'))
    (rest : List Node) : evaluateItems scope r (node :: rest) = .ok (none, r') := by
  rw [evaluateItems, run]
  rfl

theorem evaluateItems_cons_error (run : evaluateNode scope r node = .error e) (rest : List Node) :
    evaluateItems scope r (node :: rest) = .error e := by
  rw [evaluateItems, run]
  rfl

theorem traceEntries_cons_ok (run : evaluateNode scope r node = .ok (outcome, r'))
    (rest : List (String × Node)) :
    traceEntries scope r ((key, node) :: rest) =
      (traceNode scope r node).append (traceEntries scope r' rest) := by
  rw [traceEntries, run]

theorem traceEntries_cons_error (run : evaluateNode scope r node = .error e)
    (rest : List (String × Node)) :
    traceEntries scope r ((key, node) :: rest) = traceNode scope r node := by
  rw [traceEntries, run, Trace.append_empty]

theorem traceItems_cons_value (run : evaluateNode scope r node = .ok (.value v, r'))
    (rest : List Node) :
    traceItems scope r (node :: rest) =
      (traceNode scope r node).append (traceItems scope r' rest) := by
  rw [traceItems, run]

theorem traceItems_cons_skipped (run : evaluateNode scope r node = .ok (.skipped, r'))
    (rest : List Node) : traceItems scope r (node :: rest) = traceNode scope r node := by
  rw [traceItems, run, Trace.append_empty]

theorem traceItems_cons_error (run : evaluateNode scope r node = .error e) (rest : List Node) :
    traceItems scope r (node :: rest) = traceNode scope r node := by
  rw [traceItems, run, Trace.append_empty]

variable {root : Chain} {entries : List (String × Node)} {items : List Json}

theorem evaluateNode_list (run : runChain root scope r = .ok (outcome, r'))
    (elements : listElements root outcome = .ok (some items)) :
    evaluateNode scope r (.list root entries) =
      (items.mapM (evaluateElement scope entries)).map fun results =>
        (.value (.array (results.map fun result => .object (Fields.collect result.1))),
          { r' with
            elements :=
              results.foldl (fun stats result => stats.add result.2.stats) r'.elements }) := by
  rw [evaluateNode, run]
  simp only [bind, Except.bind, elements]
  rfl

/-! ### What a success consists of -/

theorem evaluateNode_nested_eq_ok
    (h : evaluateNode scope r (.nested entries) = .ok (outcome, r')) :
    ∃ fields, evaluateEntries scope r entries = .ok (fields, r') ∧
      outcome = .value (.object (Fields.collect fields)) := by
  rw [evaluateNode] at h
  obtain ⟨⟨fields, r₁⟩, run, h⟩ := bind_eq_ok_iff.mp h
  obtain ⟨rfl, rfl⟩ := Prod.mk.inj (pure_eq_ok_iff.mp h)
  exact ⟨fields, run, rfl⟩

/-- The root has elements that are all mapped, or it leads to no list. -/
theorem evaluateNode_list_eq_ok
    (h : evaluateNode scope r (.list root entries) = .ok (outcome, r')) :
    ∃ given r₁, runChain root scope r = .ok (given, r₁) ∧
      (listElements root given = .ok none ∧ outcome = .skipped ∧ r' = r₁ ∨
        ∃ items results, listElements root given = .ok (some items) ∧
          items.mapM (evaluateElement scope entries) = .ok results ∧
          outcome = .value (.array (results.map fun result => .object (Fields.collect result.1))) ∧
          r' = { r₁ with
            elements :=
              results.foldl (fun stats result => stats.add result.2.stats) r₁.elements }) := by
  rw [evaluateNode] at h
  obtain ⟨⟨given, r₁⟩, run, h⟩ := bind_eq_ok_iff.mp h
  obtain ⟨items, elements, h⟩ := bind_eq_ok_iff.mp h
  refine ⟨given, r₁, run, ?_⟩
  cases items with
  | none =>
    obtain ⟨rfl, rfl⟩ := Prod.mk.inj (pure_eq_ok_iff.mp h)
    exact .inl ⟨elements, rfl, rfl⟩
  | some items =>
    obtain ⟨results, all, h⟩ := bind_eq_ok_iff.mp h
    obtain ⟨rfl, rfl⟩ := Prod.mk.inj (pure_eq_ok_iff.mp h)
    exact .inr ⟨items, results, elements, all, rfl, rfl⟩

theorem evaluateNode_sequence_eq_ok {nodes : List Node}
    (h : evaluateNode scope r (.sequence nodes) = .ok (outcome, r')) :
    ∃ values, evaluateItems scope r nodes = .ok (values, r') ∧
      outcome = values.elim .skipped fun values => .value (.array values) := by
  rw [evaluateNode] at h
  obtain ⟨⟨values, r₁⟩, run, h⟩ := bind_eq_ok_iff.mp h
  cases values with
  | none | some values =>
    obtain ⟨rfl, rfl⟩ := Prod.mk.inj (pure_eq_ok_iff.mp h)
    exact ⟨_, run, rfl⟩

theorem evaluateEntries_cons_eq_ok {rest : List (String × Node)} {fields : List (String × Json)}
    (h : evaluateEntries scope r ((key, node) :: rest) = .ok (fields, r')) :
    ∃ outcome r₁ later, evaluateNode scope r node = .ok (outcome, r₁) ∧
      evaluateEntries scope r₁ rest = .ok (later, r') ∧ fields = addEntry key outcome later := by
  rw [evaluateEntries] at h
  obtain ⟨⟨outcome, r₁⟩, run, h⟩ := bind_eq_ok_iff.mp h
  obtain ⟨⟨later, r₂⟩, runRest, h⟩ := bind_eq_ok_iff.mp h
  cases outcome with
  | value v =>
    obtain ⟨rfl, rfl⟩ := Prod.mk.inj (pure_eq_ok_iff.mp h)
    exact ⟨_, r₁, later, run, runRest, rfl⟩
  | skipped =>
    obtain ⟨rfl, rfl⟩ := Prod.mk.inj (pure_eq_ok_iff.mp h)
    exact ⟨_, r₁, later, run, runRest, rfl⟩

/-- The first item is skipped, or has a value and the others follow. -/
theorem evaluateItems_cons_eq_ok {rest : List Node} {values : Option (List Json)}
    (h : evaluateItems scope r (node :: rest) = .ok (values, r')) :
    evaluateNode scope r node = .ok (.skipped, r') ∧ values = none ∨
      ∃ v r₁ later, evaluateNode scope r node = .ok (.value v, r₁) ∧
        evaluateItems scope r₁ rest = .ok (later, r') ∧ values = later.map (v :: ·) := by
  rw [evaluateItems] at h
  obtain ⟨⟨outcome, r₁⟩, run, h⟩ := bind_eq_ok_iff.mp h
  cases outcome with
  | skipped =>
    obtain ⟨rfl, rfl⟩ := Prod.mk.inj (pure_eq_ok_iff.mp h)
    exact .inl ⟨run, rfl⟩
  | value v =>
    obtain ⟨⟨later, r₂⟩, runRest, h⟩ := bind_eq_ok_iff.mp h
    obtain ⟨rfl, rfl⟩ := Prod.mk.inj (pure_eq_ok_iff.mp h)
    exact .inr ⟨v, r₁, later, run, runRest, rfl⟩

end Equations

/-! ### The chains of a trace -/

mutual

theorem mem_chains_of_mem_trace {scope : Scope} {r : Run} {node : Node} {c : Chain}
    (member : c ∈ (traceNode scope r node).chains) : c ∈ node.chains := by
  match node with
  | .constant v => cases member
  | .expression d => exact member
  | .nested entries => exact mem_entriesChains_of_mem_trace member
  | .list root entries =>
    rw [Node.chains]
    rcases List.mem_cons.mp member with rfl | member
    · exact List.mem_cons_self
    · obtain ⟨l, inner, member⟩ := List.mem_flatMap.mp member
      rw [traceNode] at inner
      obtain ⟨item, -, inner⟩ := List.mem_flatMap.mp inner
      have among := List.mem_flatMap.mpr ⟨l, inner, member⟩
      exact List.mem_cons_of_mem _
        (mem_entriesChains_of_mem_trace (Trace.mem_chains_of_mem_ledgers.mp among))
  | .sequence items => exact mem_itemsChains_of_mem_trace member

theorem mem_entriesChains_of_mem_trace {scope : Scope} {r : Run} {entries : List (String × Node)}
    {c : Chain} (member : c ∈ (traceEntries scope r entries).chains) :
    c ∈ Node.entriesChains entries := by
  match entries with
  | [] => cases member
  | (key, node) :: rest =>
    rw [traceEntries] at member
    rw [Node.entriesChains]
    rcases Trace.mem_chains_append.mp member with member | member
    · exact List.mem_append_left _ (mem_chains_of_mem_trace member)
    · split at member
      · exact List.mem_append_right _ (mem_entriesChains_of_mem_trace member)
      · cases member

theorem mem_itemsChains_of_mem_trace {scope : Scope} {r : Run} {items : List Node} {c : Chain}
    (member : c ∈ (traceItems scope r items).chains) : c ∈ Node.itemsChains items := by
  match items with
  | [] => cases member
  | node :: rest =>
    rw [traceItems] at member
    rw [Node.itemsChains]
    rcases Trace.mem_chains_append.mp member with member | member
    · exact List.mem_append_left _ (mem_chains_of_mem_trace member)
    · split at member
      · exact List.mem_append_right _ (mem_itemsChains_of_mem_trace member)
      · cases member

end

/-! ### The table of an evaluation -/

theorem runChain_eq_ok {c : Chain} {scope : Scope} {r r' : Run} {outcome : Outcome}
    (h : runChain c scope r = .ok (outcome, r')) :
    (c.evaluate scope scope.root r.table).1 = .ok outcome ∧
      r'.table = (c.evaluate scope scope.root r.table).2 := by
  rw [runChain] at h
  split at h
  · rename_i run
    obtain ⟨rfl, rfl⟩ := Prod.mk.inj (Except.ok.inj h)
    rw [run]
    exact ⟨rfl, rfl⟩
  · cases h

theorem runChain_eq_error_iff {c : Chain} {scope : Scope} {r : Run} {e : EvalError} :
    runChain c scope r = .error e ↔ (c.evaluate scope scope.root r.table).1 = .error e := by
  rw [runChain]
  split <;> simp [*]

mutual

/-- The chains of a trace have made the table, and a failure ends the trace. -/
theorem traceNode_passes {scope : Scope} {r r' : Run} {node : Node} {outcome : Outcome}
    (h : evaluateNode scope r node = .ok (outcome, r')) :
    Chain.Passes scope r.table (traceNode scope r node).own ∧
      r'.table = Chain.tableAfter scope r.table (traceNode scope r node).own := by
  match node with
  | .constant v =>
    obtain ⟨-, rfl⟩ := Prod.mk.inj (Except.ok.inj h)
    exact ⟨trivial, rfl⟩
  | .expression c =>
    obtain ⟨given, left⟩ := runChain_eq_ok h
    exact ⟨⟨⟨outcome, given⟩, trivial⟩, left⟩
  | .nested entries =>
    obtain ⟨fields, run, -⟩ := evaluateNode_nested_eq_ok h
    exact traceEntries_passes run
  | .list root entries =>
    obtain ⟨given, r₁, run, result⟩ := evaluateNode_list_eq_ok h
    obtain ⟨passed, left⟩ := runChain_eq_ok run
    have same : r'.table = r₁.table := by
      rcases result with ⟨-, -, rfl⟩ | ⟨_, _, -, -, -, rfl⟩ <;> rfl
    exact ⟨⟨⟨given, passed⟩, trivial⟩, same.trans left⟩
  | .sequence items =>
    obtain ⟨values, run, -⟩ := evaluateNode_sequence_eq_ok h
    exact traceItems_passes run

theorem traceEntries_passes {scope : Scope} {r r' : Run} {entries : List (String × Node)}
    {fields : List (String × Json)} (h : evaluateEntries scope r entries = .ok (fields, r')) :
    Chain.Passes scope r.table (traceEntries scope r entries).own ∧
      r'.table = Chain.tableAfter scope r.table (traceEntries scope r entries).own := by
  match entries with
  | [] =>
    obtain ⟨-, rfl⟩ := Prod.mk.inj (Except.ok.inj h)
    exact ⟨trivial, rfl⟩
  | (key, node) :: rest =>
    obtain ⟨outcome, r₁, later, run, runRest, -⟩ := evaluateEntries_cons_eq_ok h
    obtain ⟨passes, left⟩ := traceNode_passes run
    obtain ⟨passesRest, leftRest⟩ := traceEntries_passes runRest
    rw [left] at passesRest leftRest
    rw [traceEntries_cons_ok run]
    exact ⟨Chain.each_append.mpr ⟨passes, passesRest⟩,
      leftRest.trans (Chain.tableAfter_append _ _).symm⟩

theorem traceItems_passes {scope : Scope} {r r' : Run} {items : List Node}
    {values : Option (List Json)} (h : evaluateItems scope r items = .ok (values, r')) :
    Chain.Passes scope r.table (traceItems scope r items).own ∧
      r'.table = Chain.tableAfter scope r.table (traceItems scope r items).own := by
  match items with
  | [] =>
    obtain ⟨-, rfl⟩ := Prod.mk.inj (Except.ok.inj h)
    exact ⟨trivial, rfl⟩
  | node :: rest =>
    rcases evaluateItems_cons_eq_ok h with ⟨run, -⟩ | ⟨v, r₁, later, run, runRest, -⟩
    · rw [traceItems_cons_skipped run]
      exact traceNode_passes run
    · obtain ⟨passes, left⟩ := traceNode_passes run
      obtain ⟨passesRest, leftRest⟩ := traceItems_passes runRest
      rw [left] at passesRest leftRest
      rw [traceItems_cons_value run]
      exact ⟨Chain.each_append.mpr ⟨passes, passesRest⟩,
        leftRest.trans (Chain.tableAfter_append _ _).symm⟩

end

mutual

theorem traceNode_proceeds (scope : Scope) (r : Run) (node : Node) :
    (traceNode scope r node).Proceeds scope r.table := by
  match node with
  | .constant v => exact ⟨trivial, nofun⟩
  | .expression c => exact ⟨⟨fun more => absurd rfl more, trivial⟩, nofun⟩
  | .nested entries => exact traceEntries_proceeds scope r entries
  | .list root entries =>
    refine ⟨⟨fun more => absurd rfl more, trivial⟩, fun l inner => ?_⟩
    rw [traceNode] at inner
    obtain ⟨item, -, inner⟩ := List.mem_flatMap.mp inner
    have proceeds := traceEntries_proceeds { scope with root := item } {} entries
    rcases List.mem_cons.mp inner with rfl | inner
    · exact proceeds.1
    · exact proceeds.2 l inner
  | .sequence items => exact traceItems_proceeds scope r items

theorem traceEntries_proceeds (scope : Scope) (r : Run) (entries : List (String × Node)) :
    (traceEntries scope r entries).Proceeds scope r.table := by
  match entries with
  | [] => exact ⟨trivial, nofun⟩
  | (key, node) :: rest =>
    have first := traceNode_proceeds scope r node
    cases run : evaluateNode scope r node with
    | error e => rwa [traceEntries_cons_error run]
    | ok given =>
      obtain ⟨passes, left⟩ := traceNode_passes run
      have later := traceEntries_proceeds scope given.2 rest
      rw [left] at later
      rw [traceEntries_cons_ok run]
      exact first.append passes later

theorem traceItems_proceeds (scope : Scope) (r : Run) (items : List Node) :
    (traceItems scope r items).Proceeds scope r.table := by
  match items with
  | [] => exact ⟨trivial, nofun⟩
  | node :: rest =>
    have first := traceNode_proceeds scope r node
    match run : evaluateNode scope r node with
    | .error e => rwa [traceItems_cons_error run]
    | .ok (.skipped, r') => rwa [traceItems_cons_skipped run]
    | .ok (.value v, r') =>
      obtain ⟨passes, left⟩ := traceNode_passes run
      have later := traceItems_proceeds scope r' rest
      rw [left] at later
      rw [traceItems_cons_value run]
      exact first.append passes later

end

theorem proceeds_of_mem_ledgers {p : Plan} {data context : Json} {l : Ledger}
    (member : l ∈ ledgers p data context) : Chain.Proceeds l.scope .empty l.chains := by
  have proceeds := traceEntries_proceeds ⟨data, data, context⟩ {} p
  rcases List.mem_cons.mp member with rfl | inner
  · exact proceeds.1
  · exact proceeds.2 l inner

theorem mem_chains_of_mem_ledgers {p : Plan} {data context : Json} {l : Ledger}
    (member : l ∈ ledgers p data context) {c : Chain} (among : c ∈ l.chains) : c ∈ p.chains :=
  mem_entriesChains_of_mem_trace
    (Trace.mem_chains_of_mem_ledgers.mp (List.mem_flatMap.mpr ⟨l, member, among⟩))

end Mapper

end Reshape
