import Reshape.Proofs.Mapper.Direct

/-!
Roots of lists. A root whose steps fail and a root whose value is no list come to the same: the fail
mode decides, and a default that takes the root's place must be a list itself. This holds at every
list that an evaluation comes to, whether its root takes a step from the table or not.
-/

namespace Reshape

namespace Chain

variable {c : Chain} {scope : Scope} {data : Json} {t : Table}

theorem evaluate_of_steps_ok {v : Json} (h : (runSteps scope c.steps "" data t).1 = .ok v) :
    (c.evaluate scope data t).1 = .ok (.value v) := by
  rw [evaluate]
  rcases run : runSteps scope c.steps "" data t with ⟨_ | _, t'⟩
  · rw [run] at h
    cases h
  · rw [run] at h
    rw [Except.ok.inj h]

theorem evaluate_of_steps_error {step : String} {cause : LookupError}
    (h : (runSteps scope c.steps "" data t).1 = .error (step, cause)) :
    (c.evaluate scope data t).1 = c.onFailure step cause := by
  rw [evaluate]
  rcases run : runSteps scope c.steps "" data t with ⟨_ | _, t'⟩
  · rw [run] at h
    rw [Except.error.inj h]
  · rw [run] at h
    cases h

end Chain

/-! ### What a faulty root comes to -/

namespace Mapper

theorem elements?_eq_none_iff {v : Json} :
    elements? v = none ↔ v.kind ≠ .null ∧ v.kind ≠ .sequence := by
  cases v <;> simp [elements?, Json.kind]

/-- Why a root gives no list: a step has failed, or all steps have led to a value of another kind,
which counts as a failure of the last one. -/
inductive RootFault (root : Chain) (scope : Scope) (t : Table) : String → LookupError → Prop
  | step {step : String} {cause : LookupError} :
      (Chain.runSteps scope root.steps "" scope.root t).1 = .error (step, cause) →
        RootFault root scope t step cause
  | kind {v : Json} {last : Step} :
      (Chain.runSteps scope root.steps "" scope.root t).1 = .ok v → v.kind ≠ .null →
        v.kind ≠ .sequence → root.steps.getLast? = some last →
          RootFault root scope t last.raw (.typeMismatch .list v.kind)

/-- The elements that take the place of a faulty root's. -/
def substitute (root : Chain) (step : String) (cause : LookupError) :
    Except EvalError (Option (List Json)) :=
  match root.failMode, root.fallback with
  | .skip, _ => .ok none
  | .default, some .null => .ok (some [])
  | .default, some (.array items) => .ok (some items)
  | .default, some d => .error (.notASequence root.source d.kind)
  | _, _ => .error (.lookup root.source step cause)

theorem substitute_eq_none_iff {root : Chain} {step : String} {cause : LookupError} :
    substitute root step cause = .ok none ↔ root.failMode = .skip := by
  unfold substitute
  split <;> simp_all

/-- The elements of a list, from its root on. -/
def rootElements (root : Chain) (scope : Scope) (t : Table) :
    Except EvalError (Option (List Json)) := do
  listElements root (← (root.evaluate scope scope.root t).1)

theorem onFailure_eq (root : Chain) (step : String) {cause : LookupError}
    (present : ∀ key, cause ≠ .missingMemo key) :
    root.onFailure step cause = match root.failMode, root.fallback with
      | .skip, _ => .ok .skipped
      | .default, some d => .ok (.value d)
      | _, _ => .error (.lookup root.source step cause) := by
  obtain ⟨source, steps, fallback, failMode, registry⟩ := root
  cases cause
  case missingMemo key => exact absurd rfl (present key)
  all_goals cases failMode <;> cases fallback <;> rfl

/-- A value that is no list is recovered from once more, and what then takes its place is final. -/
theorem listElements_eq_substitute {root : Chain} {v : Json} (noList : elements? v = none) :
    listElements root (.value v) = substitute root ((root.steps.getLast?.map Step.raw).getD "")
      (.typeMismatch .list v.kind) := by
  have present : ∀ key, LookupError.typeMismatch .list v.kind ≠ .missingMemo key := nofun
  rw [listElements, noList]
  simp only [onFailure_eq root _ present, substitute]
  rcases root with ⟨source, steps, fallback, _ | _ | _, registry⟩
  · rfl
  · cases fallback with
    | none => rfl
    | some d => cases d <;> rfl
  · rfl

theorem rootElements_of_fault {root : Chain} {scope : Scope} {t : Table} {step : String}
    {cause : LookupError} (fault : RootFault root scope t step cause)
    (present : ∀ key, cause ≠ .missingMemo key) :
    rootElements root scope t = substitute root step cause := by
  cases fault with
  | kind given notNull notSequence final =>
    have noList := elements?_eq_none_iff.mpr ⟨notNull, notSequence⟩
    rw [rootElements, Chain.evaluate_of_steps_ok given]
    refine (listElements_eq_substitute noList).trans ?_
    rw [final]
    rfl
  | step failed =>
    rw [rootElements, Chain.evaluate_of_steps_error failed, onFailure_eq root step present]
    rcases mode : root.failMode with _ | _ | _
    · simp only [substitute, mode]
      rfl
    · cases fallback : root.fallback with
      | none =>
        simp only [substitute, mode, fallback]
        rfl
      | some d =>
        -- The default is looked at like any other value of the root.
        show listElements root (.value d) = substitute root step cause
        cases known : elements? d with
        | some items =>
          rw [listElements, known]
          simp only [substitute, mode, fallback]
          cases d <;> cases known <;> rfl
        | none =>
          rw [listElements_eq_substitute known]
          simp only [substitute, mode, fallback]
          cases d <;> rfl
    · simp only [substitute, mode]
      rfl

theorem exists_runChain {c : Chain} {scope : Scope} {r : Run} {outcome : Outcome}
    (given : (c.evaluate scope scope.root r.table).1 = .ok outcome) :
    ∃ r', runChain c scope r = .ok (outcome, r') := by
  rw [runChain]
  split
  · next run =>
    rw [run] at given
    exact ⟨_, by rw [Except.ok.inj given]⟩
  · next run =>
    rw [run] at given
    cases given

theorem elementsOf_of_rootElements {root : Chain} {scope : Scope} {r : Run} {items : List Json}
    (elements : rootElements root scope r.table = .ok (some items)) :
    elementsOf root scope r = items := by
  obtain ⟨outcome, given, some⟩ := bind_eq_ok_iff.mp elements
  obtain ⟨r', run⟩ := exists_runChain given
  exact elementsOf_of_runChain run some

/-- A root is at fault, or its value is null or a sequence. -/
theorem rootFault_or_elements {root : Chain} (nonempty : root.steps ≠ []) (scope : Scope)
    (t : Table) :
    (∃ step cause, RootFault root scope t step cause) ∨
      ∃ v items, (Chain.runSteps scope root.steps "" scope.root t).1 = .ok v ∧
        elements? v = some items ∧ rootElements root scope t = .ok (some items) := by
  cases given : (Chain.runSteps scope root.steps "" scope.root t).1 with
  | error failure => exact .inl ⟨_, _, .step given⟩
  | ok v =>
    cases known : elements? v with
    | none =>
      obtain ⟨notNull, notSequence⟩ := elements?_eq_none_iff.mp known
      exact .inl ⟨_, _, .kind given notNull notSequence (List.getLast?_eq_some_getLast nonempty)⟩
    | some items =>
      refine .inr ⟨v, items, rfl, known, ?_⟩
      rw [rootElements, Chain.evaluate_of_steps_ok given]
      show listElements root (.value v) = _
      rw [listElements, known]

/-! ### The lists of an evaluation -/

/-- A list that an evaluation comes to, with the data and the table that it finds. -/
structure ListVisit where
  scope : Scope
  run : Run
  root : Chain
  entries : List (String × Node)

/-- What a list gives for the elements that it has, or gives when it is skipped. -/
def mapElements (scope : Scope) (entries : List (String × Node)) :
    Option (List Json) → Except EvalError Outcome
  | none => .ok .skipped
  | some items => (items.mapM (evaluateElement scope entries)).map fun results =>
      .value (.array (results.map fun result => .object (Fields.collect result.1)))

def ListVisit.outcome (visit : ListVisit) : Except EvalError Outcome :=
  (evaluateNode visit.scope visit.run (.list visit.root visit.entries)).map Prod.fst

theorem ListVisit.outcome_eq (visit : ListVisit) :
    visit.outcome = rootElements visit.root visit.scope visit.run.table >>=
      mapElements visit.scope visit.entries := by
  obtain ⟨scope, r, root, entries⟩ := visit
  rw [outcome, evaluateNode, rootElements, runChain]
  rcases root.evaluate scope scope.root r.table with ⟨e | given, t⟩
  · rfl
  · simp only [bind, Except.bind]
    rcases listElements root given with e | _ | items
    · rfl
    · rfl
    · simp only [mapElements]
      show Except.map _ (Except.bind (items.mapM (evaluateElement scope entries)) _) = _
      cases items.mapM (evaluateElement scope entries) <;> rfl

mutual

/-- The lists that a node's evaluation comes to, those inside elements included. -/
def listsNode (scope : Scope) (r : Run) : Node → List ListVisit
  | .constant _ | .expression _ => []
  | .nested entries => listsEntries scope r entries
  | .list root entries =>
    ⟨scope, r, root, entries⟩ ::
      (attempted (evaluateElement scope entries) (elementsOf root scope r)).flatMap fun item =>
        listsEntries { scope with root := item } {} entries
  | .sequence items => listsItems scope r items

def listsEntries (scope : Scope) (r : Run) : List (String × Node) → List ListVisit
  | [] => []
  | (_, node) :: rest =>
    listsNode scope r node ++
      match evaluateNode scope r node with
      | .ok (_, r) => listsEntries scope r rest
      | .error _ => []

def listsItems (scope : Scope) (r : Run) : List Node → List ListVisit
  | [] => []
  | node :: rest =>
    listsNode scope r node ++
      match evaluateNode scope r node with
      | .ok (.value _, r) => listsItems scope r rest
      | _ => []

end

/-- The lists that a call comes to. -/
def lists (m : Mapper) (data context : Json) : List ListVisit :=
  listsEntries ⟨data, data, context⟩ {} m.plan

/-! ### What holds at every list -/

/-- A property of tables that the empty one has and that these chains keep. -/
structure KeptBy (chains : List Chain) (invariant : Scope → Table → Prop) : Prop where
  empty : ∀ scope, invariant scope .empty
  kept : ∀ c ∈ chains, ∀ scope t, invariant scope t →
    invariant scope (c.evaluate scope scope.root t).2

section Invariant

variable {chains : List Chain} {invariant : Scope → Table → Prop} {visit : ListVisit}

theorem KeptBy.tableAfter (keptBy : KeptBy chains invariant) {scope : Scope} {own : List Chain}
    {t : Table} (within : ∀ c ∈ own, c ∈ chains) (held : invariant scope t) :
    invariant scope (Chain.tableAfter scope t own) := by
  induction own generalizing t with
  | nil => exact held
  | cons c rest ih =>
    rw [List.forall_mem_cons] at within
    exact ih within.2 (keptBy.kept c within.1 scope t held)

theorem KeptBy.evaluateNode (keptBy : KeptBy chains invariant) {scope : Scope} {r r' : Run}
    {node : Node} {outcome : Outcome} (within : ∀ c ∈ node.chains, c ∈ chains)
    (held : invariant scope r.table)
    (run : Mapper.evaluateNode scope r node = .ok (outcome, r')) : invariant scope r'.table := by
  rw [(traceNode_passes run).2]
  refine keptBy.tableAfter (fun c own => within c ?_) held
  exact mem_chains_of_mem_trace (List.mem_append_left _ own)

mutual

theorem KeptBy.mem_listsNode (keptBy : KeptBy chains invariant) {scope : Scope} {r : Run}
    {node : Node} (within : ∀ c ∈ node.chains, c ∈ chains) (held : invariant scope r.table)
    (member : visit ∈ listsNode scope r node) :
    visit.root ∈ chains ∧ invariant visit.scope visit.run.table := by
  match node with
  | .constant _ | .expression _ => cases member
  | .nested entries => exact keptBy.mem_listsEntries within held member
  | .list root entries =>
    rw [Node.chains, List.forall_mem_cons] at within
    rw [listsNode] at member
    rcases List.mem_cons.mp member with rfl | member
    · exact ⟨within.1, held⟩
    · obtain ⟨item, -, member⟩ := List.mem_flatMap.mp member
      exact keptBy.mem_listsEntries within.2 (keptBy.empty _) member
  | .sequence items => exact keptBy.mem_listsItems within held member

theorem KeptBy.mem_listsEntries (keptBy : KeptBy chains invariant) {scope : Scope} {r : Run}
    {entries : List (String × Node)} (within : ∀ c ∈ Node.entriesChains entries, c ∈ chains)
    (held : invariant scope r.table) (member : visit ∈ listsEntries scope r entries) :
    visit.root ∈ chains ∧ invariant visit.scope visit.run.table := by
  match entries with
  | [] => cases member
  | (key, node) :: rest =>
    rw [Node.entriesChains, List.forall_mem_append] at within
    rw [listsEntries] at member
    rcases List.mem_append.mp member with member | member
    · exact keptBy.mem_listsNode within.1 held member
    · split at member
      · next run =>
        exact keptBy.mem_listsEntries within.2 (keptBy.evaluateNode within.1 held run) member
      · cases member

theorem KeptBy.mem_listsItems (keptBy : KeptBy chains invariant) {scope : Scope} {r : Run}
    {items : List Node} (within : ∀ c ∈ Node.itemsChains items, c ∈ chains)
    (held : invariant scope r.table) (member : visit ∈ listsItems scope r items) :
    visit.root ∈ chains ∧ invariant visit.scope visit.run.table := by
  match items with
  | [] => cases member
  | node :: rest =>
    rw [Node.itemsChains, List.forall_mem_append] at within
    rw [listsItems] at member
    rcases List.mem_append.mp member with member | member
    · exact keptBy.mem_listsNode within.1 held member
    · split at member
      · next run =>
        exact keptBy.mem_listsItems within.2 (keptBy.evaluateNode within.1 held run) member
      · cases member

end

end Invariant

/-! ### Where an unfit default comes from -/

theorem substitute_eq_notASequence {root : Chain} {step source : String} {cause : LookupError}
    {found : Kind} (failed : substitute root step cause = .error (.notASequence source found)) :
    root.failMode = .default ∧ ∃ d, root.fallback = some d ∧ d.kind ≠ .null ∧ d.kind ≠ .sequence ∧
      source = root.source ∧ found = d.kind := by
  unfold substitute at failed
  split at failed
  case h_4 d notNull notSequence mode fallback =>
    obtain ⟨rfl, rfl⟩ := EvalError.notASequence.inj (Except.error.inj failed)
    refine ⟨mode, d, fallback, fun kind => ?_, fun kind => ?_, rfl, rfl⟩
    · cases d <;> first | exact notNull rfl | cases kind
    · cases d <;> first | exact notSequence _ rfl | cases kind
  all_goals cases failed

theorem evaluate_ne_notASequence (c : Chain) (scope : Scope) (data : Json) (t : Table)
    (source : String) (found : Kind) :
    (c.evaluate scope data t).1 ≠ .error (.notASequence source found) := by
  intro failed
  rw [Chain.evaluate] at failed
  split at failed
  · cases failed
  · unfold Chain.onFailure at failed
    split at failed <;> cases failed

mutual

theorem exists_list_of_evaluateNode {scope : Scope} {r : Run} {node : Node} {source : String}
    {found : Kind} (failed : evaluateNode scope r node = .error (.notASequence source found)) :
    ∃ visit ∈ listsNode scope r node, rootElements visit.root visit.scope visit.run.table =
      .error (.notASequence source found) := by
  match node with
  | .constant v => cases failed
  | .expression c =>
    exact absurd (runChain_eq_error_iff.mp failed) (evaluate_ne_notASequence _ _ _ _ _ _)
  | .nested entries =>
    rw [evaluateNode] at failed
    rcases bind_eq_error_iff.mp failed with failed | ⟨_, -, failed⟩
    · exact exists_list_of_evaluateEntries failed
    · cases failed
  | .list root entries =>
    rw [listsNode]
    have unfit : ListVisit.outcome ⟨scope, r, root, entries⟩ =
        .error (.notASequence source found) := by
      rw [ListVisit.outcome, failed]
      rfl
    rw [ListVisit.outcome_eq] at unfit
    rcases bind_eq_error_iff.mp unfit with unfit | ⟨_ | items, elements, unfit⟩
    · exact ⟨_, List.mem_cons_self, unfit⟩
    · cases unfit
    · obtain ⟨item, member, failed⟩ := exists_of_mapM_eq_error (map_eq_error_iff.mp unfit)
      obtain ⟨visit, among, cause⟩ := exists_list_of_evaluateEntries failed
      refine ⟨visit, List.mem_cons_of_mem _ (List.mem_flatMap.mpr ⟨item, ?_, among⟩), cause⟩
      rwa [elementsOf_of_rootElements elements]
  | .sequence items =>
    rw [evaluateNode] at failed
    rcases bind_eq_error_iff.mp failed with failed | ⟨⟨values, _⟩, -, failed⟩
    · exact exists_list_of_evaluateItems failed
    · cases values <;> cases failed

theorem exists_list_of_evaluateEntries {scope : Scope} {r : Run} {entries : List (String × Node)}
    {source : String} {found : Kind}
    (failed : evaluateEntries scope r entries = .error (.notASequence source found)) :
    ∃ visit ∈ listsEntries scope r entries, rootElements visit.root visit.scope visit.run.table =
      .error (.notASequence source found) := by
  match entries with
  | [] => cases failed
  | (key, node) :: rest =>
    rw [listsEntries]
    match run : evaluateNode scope r node with
    | .error e =>
      rw [evaluateEntries_cons_error run] at failed
      obtain rfl := Except.error.inj failed
      obtain ⟨visit, member, cause⟩ := exists_list_of_evaluateNode run
      exact ⟨visit, List.mem_append_left _ member, cause⟩
    | .ok (outcome, r') =>
      rw [evaluateEntries_cons_ok run] at failed
      obtain ⟨visit, member, cause⟩ :=
        exists_list_of_evaluateEntries (map_eq_error_iff.mp failed)
      exact ⟨visit, List.mem_append_right _ member, cause⟩

theorem exists_list_of_evaluateItems {scope : Scope} {r : Run} {items : List Node}
    {source : String} {found : Kind}
    (failed : evaluateItems scope r items = .error (.notASequence source found)) :
    ∃ visit ∈ listsItems scope r items, rootElements visit.root visit.scope visit.run.table =
      .error (.notASequence source found) := by
  match items with
  | [] => cases failed
  | node :: rest =>
    rw [listsItems]
    match run : evaluateNode scope r node with
    | .error e =>
      rw [evaluateItems_cons_error run] at failed
      obtain rfl := Except.error.inj failed
      obtain ⟨visit, member, cause⟩ := exists_list_of_evaluateNode run
      exact ⟨visit, List.mem_append_left _ member, cause⟩
    | .ok (.skipped, r') =>
      rw [evaluateItems_cons_skipped run] at failed
      cases failed
    | .ok (.value v, r') =>
      rw [evaluateItems_cons_value run] at failed
      obtain ⟨visit, member, cause⟩ := exists_list_of_evaluateItems (map_eq_error_iff.mp failed)
      exact ⟨visit, List.mem_append_right _ member, cause⟩

end

/-! ### Lists of shared plans -/

open Plan (Sharing)
open Plan.Sharing (Covers)

/-- Two plans come to a list alike: the root is the same or takes its first step from the table, is
at fault in the same way, and the list gives the same. -/
structure ListVisit.Alike (visit plain : ListVisit) : Prop where
  scope : visit.scope = plain.scope
  run : visit.run = plain.run
  root : visit.root = plain.root ∨ visit.root = plain.root.reuse 0
  fault : ∀ step cause, RootFault visit.root visit.scope visit.run.table step cause ↔
    RootFault plain.root plain.scope plain.run.table step cause
  outcome : visit.outcome = plain.outcome

theorem rootFault_congr {root root' : Chain} {scope : Scope} {t : Table}
    (texts : root'.steps.map Step.raw = root.steps.map Step.raw)
    (same : Chain.runSteps scope root'.steps "" scope.root t =
      Chain.runSteps scope root.steps "" scope.root t)
    {step : String} {cause : LookupError} (fault : RootFault root scope t step cause) :
    RootFault root' scope t step cause := by
  cases fault with
  | step failed => exact .step (same ▸ failed)
  | @kind v last given notNull notSequence final =>
    have final' : root'.steps.getLast?.map Step.raw = some last.raw := by
      rw [← List.getLast?_map, texts, List.getLast?_map, final]
      rfl
    obtain ⟨last', final', raw⟩ := Option.map_eq_some_iff.mp final'
    rw [← raw]
    exact .kind (same ▸ given) notNull notSequence final'

theorem rootFault_shareChain {s : Sharing} {c : Chain} {t : Table} (shareable : Shareable c)
    (covers : Covers s.seen t) (scope : Scope) (step : String) (cause : LookupError) :
    RootFault (s.shareChain c).1 scope t step cause ↔ RootFault c scope t step cause := by
  rcases Sharing.shareChain_cases covers shareable.1 with same | ⟨reused, known⟩
  · rw [same]
  · have texts := Chain.texts_reuse_zero shareable.1
    have steps := Chain.runSteps_reuse_zero shareable.1 known scope scope.root
    rw [reused]
    exact ⟨rootFault_congr texts.symm steps.symm, rootFault_congr texts steps⟩

mutual

theorem listsNode_shareNode (s : Sharing) (scope : Scope) (r : Run) {node : Node}
    (shareable : ∀ c ∈ node.chains, Shareable c) (covers : Covers s.seen r.table) :
    List.Forall₂ ListVisit.Alike (listsNode scope r (s.shareNode node).1)
      (listsNode scope r node) := by
  match node with
  | .constant _ | .expression _ => exact .nil
  | .nested entries => exact listsEntries_shareEntries _ scope r shareable (Sharing.covers_nil _)
  | .list root entries =>
    have own := shareable root List.mem_cons_self
    have rest := fun c member => shareable c (List.mem_cons_of_mem root member)
    have run := runChain_shareChain own covers scope
    have elements := listElements_shareChain own covers
    have element : evaluateElement scope ((s.shareChain root).2.enterScope.shareEntries entries).1 =
        evaluateElement scope entries := funext fun item =>
      (evaluateEntries_shareEntries _ { scope with root := item } {} rest
        (Sharing.covers_nil _)).1
    have same := (evaluateNode_shareNode s scope r shareable covers).1
    have alike : ListVisit.Alike
        ⟨scope, r, (s.shareChain root).1, ((s.shareChain root).2.enterScope.shareEntries entries).1⟩
        ⟨scope, r, root, entries⟩ := {
      scope := rfl
      run := rfl
      root := (Sharing.shareChain_cases covers own.1).imp_right And.left
      fault := rootFault_shareChain own covers scope
      outcome := congrArg (Except.map Prod.fst) same }
    rw [Sharing.shareNode, listsNode, listsNode]
    refine .cons alike ?_
    simp only [elementsOf, run, elements, element]
    exact alike_flatMap fun item _ =>
      listsEntries_shareEntries _ { scope with root := item } {} rest (Sharing.covers_nil _)
  | .sequence items => exact listsItems_shareItems s scope r shareable covers

theorem listsEntries_shareEntries (s : Sharing) (scope : Scope) (r : Run)
    {entries : List (String × Node)} (shareable : ∀ c ∈ Node.entriesChains entries, Shareable c)
    (covers : Covers s.seen r.table) :
    List.Forall₂ ListVisit.Alike (listsEntries scope r (s.shareEntries entries).1)
      (listsEntries scope r entries) := by
  match entries with
  | [] => exact .nil
  | (key, node) :: rest =>
    rw [Node.entriesChains, List.forall_mem_append] at shareable
    have first := listsNode_shareNode s scope r shareable.1 covers
    have same := (evaluateNode_shareNode s scope r shareable.1 covers).1
    rw [Sharing.shareEntries, listsEntries, listsEntries, same]
    refine List.rel_append first ?_
    match run : evaluateNode scope r node with
    | .error e => exact .nil
    | .ok (outcome, r') =>
      exact listsEntries_shareEntries _ scope r' shareable.2
        (covers_shareNode shareable.1 covers run)

theorem listsItems_shareItems (s : Sharing) (scope : Scope) (r : Run) {items : List Node}
    (shareable : ∀ c ∈ Node.itemsChains items, Shareable c)
    (covers : Covers s.seen r.table) :
    List.Forall₂ ListVisit.Alike (listsItems scope r (s.shareItems items).1)
      (listsItems scope r items) := by
  match items with
  | [] => exact .nil
  | node :: rest =>
    rw [Node.itemsChains, List.forall_mem_append] at shareable
    have first := listsNode_shareNode s scope r shareable.1 covers
    have same := (evaluateNode_shareNode s scope r shareable.1 covers).1
    rw [Sharing.shareItems, listsItems, listsItems, same]
    refine List.rel_append first ?_
    match run : evaluateNode scope r node with
    | .error e => exact .nil
    | .ok (.skipped, r') => exact .nil
    | .ok (.value v, r') =>
      exact listsItems_shareItems _ scope r' shareable.2 (covers_shareNode shareable.1 covers run)

end

theorem lists_ofPlan {p : Plan} (shareable : ∀ c ∈ p.chains, Shareable c) (optimize : Bool)
    (data context : Json) :
    List.Forall₂ ListVisit.Alike ((ofPlan optimize p).lists data context)
      ((ofPlan false p).lists data context) := by
  cases optimize with
  | false => exact List.forall₂_same.mpr fun _ _ => ⟨rfl, rfl, .inl rfl, fun _ _ => .rfl, rfl⟩
  | true => exact listsEntries_shareEntries _ _ _ shareable (Sharing.covers_nil _)

/-! ### Lists of mappers -/

/-- A list with a faulty root gives what the fail mode puts in its place, and any other list has the
elements of its root's value. -/
structure ListVisit.Handled (visit : ListVisit) : Prop where
  faulty : ∀ step cause, RootFault visit.root visit.scope visit.run.table step cause →
    visit.outcome = substitute visit.root step cause >>= mapElements visit.scope visit.entries
  sound : (∃ step cause, RootFault visit.root visit.scope visit.run.table step cause) ∨
    ∃ v items, (Chain.runSteps visit.scope visit.root.steps "" visit.scope.root visit.run.table).1 =
        .ok v ∧ elements? v = some items ∧
      visit.outcome = mapElements visit.scope visit.entries (some items)

theorem ListVisit.handled {visit : ListVisit} (nonempty : visit.root.steps ≠ [])
    (present : ∀ step cause, RootFault visit.root visit.scope visit.run.table step cause →
      ∀ key, cause ≠ .missingMemo key) : visit.Handled := by
  constructor
  case faulty =>
    intro step cause fault
    rw [outcome_eq, rootElements_of_fault fault (present step cause fault)]
  case sound =>
    refine (rootFault_or_elements nonempty visit.scope visit.run.table).imp_right ?_
    rintro ⟨v, items, given, known, elements⟩
    exact ⟨v, items, given, known, by rw [outcome_eq, elements]; rfl⟩

theorem RootFault.ne_missingMemo {root : Chain} {scope : Scope} {t : Table} {step key : String}
    {cause : LookupError} (fault : RootFault root scope t step cause)
    (builtin : ∀ step ∈ root.steps, step.lookup.IsBuiltin) (settled : t.Settled) :
    cause ≠ .missingMemo key := by
  cases fault with
  | kind => exact nofun
  | step failed =>
    rintro rfl
    exact (Chain.runSteps_settled builtin settled scope "" scope.root).1 _ key failed

theorem keptBy_settled {chains : List Chain}
    (builtin : ∀ c ∈ chains, ∀ step ∈ c.steps, step.lookup.IsBuiltin) :
    KeptBy chains fun _ t => t.Settled :=
  ⟨fun _ => Table.settled_empty, fun c member scope _ settled =>
    (Chain.evaluate_settled (builtin c member) settled scope scope.root).2⟩

theorem keptBy_faithful {chains : List Chain} {r : Registry}
    (uniform : ∀ c ∈ chains, c.CompiledWith r)
    (builtin : ∀ c ∈ chains, ∀ step ∈ c.steps, step.lookup.IsBuiltin) :
    KeptBy chains fun scope t => Chain.Faithful chains scope scope.root t := by
  refine ⟨fun scope => Chain.faithful_empty chains scope scope.root, ?_⟩
  intro c member scope t faithful
  exact (faithful.evaluate (Chain.coherent_of_compiledWith uniform) member
    (uniform c member).compiled.wellSpelled
    fun step among => (builtin c member step among).ignoresTable).2

/-- With one registry, what a root's steps come to on the table is what they come to alone. -/
theorem runSteps_of_mem_lists {p : Plan} {r : Registry} (uniform : ∀ c ∈ p.chains, c.CompiledWith r)
    (builtin : ∀ c ∈ p.chains, ∀ step ∈ c.steps, step.lookup.IsBuiltin) {data context : Json}
    {visit : ListVisit} (member : visit ∈ (ofPlan false p).lists data context) :
    (Chain.runSteps visit.scope visit.root.steps "" visit.scope.root visit.run.table).1 =
      Chain.directSteps visit.scope visit.root.steps visit.scope.root := by
  obtain ⟨own, faithful⟩ := (keptBy_faithful uniform builtin).mem_listsEntries
    (fun _ => id) (Chain.faithful_empty p.chains _ _) member
  exact (faithful.runSteps (Chain.coherent_of_compiledWith uniform) own
    (uniform _ own).compiled.wellSpelled [] rfl
    (fun step among => (builtin _ own step among).ignoresTable) rfl).1

theorem ListVisit.Alike.steps_ne_nil {visit plain : ListVisit} (alike : visit.Alike plain)
    (wellSpelled : plain.root.WellSpelled) : visit.root.steps ≠ [] := by
  obtain ⟨step, rest, split, -⟩ := Chain.exists_first wellSpelled
  rcases alike.root with same | same
  · rw [same, split]
    exact List.cons_ne_nil step rest
  · rw [same, Chain.reuse_zero split]
    exact List.cons_ne_nil _ rest

/-- Every list with a faulty root is skipped, has the elements of the default or fails, as the
root's fail mode says, and an error about a default that is no list comes from such a list. It makes
no difference whether prefixes are shared; with one registry it makes none that there is a table. -/
theorem faulty_roots_handled {o : Options} {template : Template} {p : Plan}
    (planned : Plan.ofTemplate o template = .ok p)
    (constructed : ∀ c ∈ template.chains, c.Constructed)
    (builtin : ∀ c ∈ p.chains, ∀ step ∈ c.steps, step.lookup.IsBuiltin) (optimize : Bool) :
    ∃ m plain, compile template { o with optimize } = .ok m ∧
      compile template { o with optimize := false } = .ok plain ∧
      ∀ data context,
        List.Forall₂ ListVisit.Alike (m.lists data context) (plain.lists data context) ∧
        (∀ visit ∈ m.lists data context, visit.Handled) ∧
        (∀ source found, m.evaluate data context = .error (.notASequence source found) →
          ∃ visit ∈ m.lists data context, ∃ step cause d,
            RootFault visit.root visit.scope visit.run.table step cause ∧
            visit.root.failMode = .default ∧ visit.root.fallback = some d ∧
            d.kind ≠ .null ∧ d.kind ≠ .sequence ∧ source = visit.root.source ∧ found = d.kind) ∧
        ∀ r, (∀ c ∈ p.chains, c.CompiledWith r) → ∀ visit ∈ plain.lists data context,
          (Chain.runSteps visit.scope visit.root.steps "" visit.scope.root visit.run.table).1 =
            Chain.directSteps visit.scope visit.root.steps visit.scope.root := by
  have wellSpelled : ∀ c ∈ p.chains, c.WellSpelled := fun c member =>
    ((Plan.supplied_of_ofTemplate planned member).compiled constructed).wellSpelled
  have shareable : ∀ c ∈ p.chains, Shareable c := fun c member =>
    ⟨wellSpelled c member,
      fun step among => (builtin c member step among).ignoresTable.keepsEntries⟩
  have compiled (optimize : Bool) :
      compile template { o with optimize } = .ok (ofPlan optimize p) := by
    rw [compile_eq_map, planned]
    rfl
  refine ⟨_, _, compiled optimize, compiled false, fun data context => ?_⟩
  have alike := lists_ofPlan shareable optimize data context
  -- The table of a list never holds that a memo is missing, so no root fails for that.
  have regular : ∀ visit ∈ (ofPlan optimize p).lists data context, visit.root.steps ≠ [] ∧
      ∀ step cause, RootFault visit.root visit.scope visit.run.table step cause →
        ∀ key, cause ≠ .missingMemo key := by
    intro visit member
    obtain ⟨plain, among, same⟩ := exists_of_mem_right alike.flip member
    obtain ⟨own, settled⟩ := (keptBy_settled builtin).mem_listsEntries
      (fun _ => id) Table.settled_empty among
    refine ⟨same.steps_ne_nil (wellSpelled _ own), fun step cause fault key => ?_⟩
    exact ((same.fault step cause).mp fault).ne_missingMemo (builtin _ own) settled
  refine ⟨alike, fun visit member => ?_, fun source found failed => ?_,
    fun r uniform visit => runSteps_of_mem_lists uniform builtin⟩
  · obtain ⟨nonempty, present⟩ := regular visit member
    exact ListVisit.handled nonempty present
  · rw [evaluate] at failed
    rcases bind_eq_error_iff.mp failed with failed | ⟨_, -, failed⟩
    · obtain ⟨visit, member, unfit⟩ := exists_list_of_evaluateEntries failed
      obtain ⟨nonempty, present⟩ := regular visit member
      rcases rootFault_or_elements nonempty visit.scope visit.run.table with
        ⟨step, cause, fault⟩ | ⟨_, _, -, -, elements⟩
      · rw [rootElements_of_fault fault (present step cause fault)] at unfit
        obtain ⟨mode, d, rest⟩ := substitute_eq_notASequence unfit
        exact ⟨visit, member, step, cause, d, fault, mode, rest⟩
      · rw [elements] at unfit
        cases unfit
    · cases failed

/-- A list whose root starts with the step of the path before it. -/
def quay : Template :=
  .mapping [("name", .expression "port.name"),
    ("boats", .list (.expression "port.boats") (.mapping [("owner", .expression "by")]))]

def quayData : Json := .object [("port", .object [("name", .string "Gaza"), ("boats", .bool true)])]

/-- A value that is no list and a default that is none either. -/
theorem faulty_roots_handled_quay :
    let o : Options := { failMode := .default, fallback := some (.ofInt 7) }
    ∃ p m, Plan.ofTemplate o quay = .ok p ∧ (∀ c ∈ quay.chains, c.Constructed) ∧
      (∀ c ∈ p.chains, ∀ step ∈ c.steps, step.lookup.IsBuiltin) ∧ compile quay o = .ok m ∧
      m.manifest.reuses = 1 ∧
      m.evaluate quayData .null = .error (.notASequence "port.boats" .number) ∧
      ∃ visit ∈ m.lists quayData .null, visit.Handled ∧ visit.root.source = "port.boats" ∧
        ∃ step cause, RootFault visit.root visit.scope visit.run.table step cause := by
  intro o
  have constructed : ∀ c ∈ quay.chains, c.Constructed := List.forall_mem_nil _
  have checked : (compile quay o).toOption.map (fun m =>
      (m.manifest.reuses, failure? (m.evaluate quayData .null))) =
      some (1, some (.notASequence "port.boats" .number)) := by decide +kernel
  cases planned : Plan.ofTemplate o quay with
  | error e =>
    rw [compile, planned] at checked
    cases checked
  | ok p =>
    have uniform := Plan.compiledWith_of_ofTemplate rfl planned
    have builtin : ∀ c ∈ p.chains, ∀ step ∈ c.steps, step.lookup.IsBuiltin :=
      fun c member step among => Registry.isBuiltin_of_makes ((uniform c member).makes step among)
    obtain ⟨m, plain, compiled, -, outcomes⟩ :=
      faulty_roots_handled planned constructed builtin true
    obtain ⟨-, handled, unfit, -⟩ := outcomes quayData .null
    have compiled : compile quay o = .ok m := compiled
    rw [compiled] at checked
    obtain ⟨reuses, failed⟩ := Prod.mk.inj (Option.some.inj checked)
    have failed := failure?_eq_some_iff.mp failed
    obtain ⟨visit, member, step, cause, d, fault, -, -, -, -, source, -⟩ := unfit _ _ failed
    exact ⟨p, m, rfl, constructed, builtin, compiled, reuses, failed, visit, member,
      handled visit member, source.symm, step, cause, fault⟩

end Mapper

end Reshape
