import Reshape.Proofs.Mapper.Sharing
import Reshape.Proofs.Plan.Nodes

/-!
Elements of lists. The template of a list does with every element what a mapper of its own would
do: nothing passes between elements, or between them and what is evaluated around the list, but the
counters of their tables, which are added up.
-/

namespace Reshape

/-! ### Chains that do not look at the data of the whole call -/

namespace Chain

variable {scope : Scope} {superRoot : Json} {t : Table}

theorem runStep_superRoot {step : Step} (ignores : step.lookup.IgnoresSuperRoot) (path : String)
    (node : Json) :
    runStep { scope with superRoot } step path node t = runStep scope step path node t := by
  rw [runStep, runStep]
  simp only [ignores scope superRoot]

theorem runSteps_superRoot {steps : List Step}
    (ignores : ∀ step ∈ steps, step.lookup.IgnoresSuperRoot) (path : String) (node : Json) :
    runSteps { scope with superRoot } steps path node t = runSteps scope steps path node t := by
  induction steps generalizing path node t with
  | nil => rfl
  | cons step rest ih =>
    rw [List.forall_mem_cons] at ignores
    rw [runSteps, runSteps, runStep_superRoot ignores.1]
    simp only [ih ignores.2]

theorem evaluate_superRoot {c : Chain} (ignores : ∀ step ∈ c.steps, step.lookup.IgnoresSuperRoot)
    (data : Json) : c.evaluate { scope with superRoot } data t = c.evaluate scope data t := by
  rw [evaluate, evaluate, runSteps_superRoot ignores]

end Chain

namespace Mapper

/-- Nothing in these chains looks at the data of the whole call. -/
abbrev IgnoreSuperRoot (chains : List Chain) : Prop :=
  ∀ c ∈ chains, ∀ step ∈ c.steps, step.lookup.IgnoresSuperRoot

theorem runChain_superRoot {c : Chain} {scope : Scope} {superRoot : Json}
    (ignores : ∀ step ∈ c.steps, step.lookup.IgnoresSuperRoot) (r : Run) :
    runChain c { scope with superRoot } r = runChain c scope r := by
  rw [runChain, runChain, Chain.evaluate_superRoot ignores]

mutual

theorem evaluateNode_superRoot (scope : Scope) (superRoot : Json) (r : Run) {node : Node}
    (ignores : IgnoreSuperRoot node.chains) :
    evaluateNode { scope with superRoot } r node = evaluateNode scope r node := by
  match node with
  | .constant v => rfl
  | .expression c => exact runChain_superRoot (ignores c (List.mem_singleton_self c)) r
  | .nested entries =>
    rw [evaluateNode, evaluateNode, evaluateEntries_superRoot scope superRoot r ignores]
  | .list root entries =>
    rw [Node.chains, IgnoreSuperRoot, List.forall_mem_cons] at ignores
    -- An element takes the place of the scope's data, not of that of the whole call.
    have each := fun item : Json =>
      evaluateEntries_superRoot { scope with root := item } superRoot {} ignores.2
    rw [evaluateNode, evaluateNode, runChain_superRoot ignores.1]
    simp only [each]
  | .sequence items =>
    rw [evaluateNode, evaluateNode, evaluateItems_superRoot scope superRoot r ignores]

theorem evaluateEntries_superRoot (scope : Scope) (superRoot : Json) (r : Run)
    {entries : List (String × Node)} (ignores : IgnoreSuperRoot (Node.entriesChains entries)) :
    evaluateEntries { scope with superRoot } r entries = evaluateEntries scope r entries := by
  match entries with
  | [] => rfl
  | (key, node) :: rest =>
    rw [Node.entriesChains, IgnoreSuperRoot, List.forall_mem_append] at ignores
    have later := fun r => evaluateEntries_superRoot scope superRoot r ignores.2
    rw [evaluateEntries, evaluateEntries, evaluateNode_superRoot scope superRoot r ignores.1]
    simp only [later]

theorem evaluateItems_superRoot (scope : Scope) (superRoot : Json) (r : Run) {items : List Node}
    (ignores : IgnoreSuperRoot (Node.itemsChains items)) :
    evaluateItems { scope with superRoot } r items = evaluateItems scope r items := by
  match items with
  | [] => rfl
  | node :: rest =>
    rw [Node.itemsChains, IgnoreSuperRoot, List.forall_mem_append] at ignores
    have later := fun r => evaluateItems_superRoot scope superRoot r ignores.2
    rw [evaluateItems, evaluateItems, evaluateNode_superRoot scope superRoot r ignores.1]
    simp only [later]

end

/-! ### The mapper of a list's template -/

/-- The mapper that the template of a list gives when it is compiled alone. -/
def elementMapper? (o : Options) (template : Template) (site : Site) : Option Mapper :=
  match template.at? site with
  | some (.list _ element) => (compile element o).toOption
  | _ => none

theorem exists_at?_of_ofPlan {optimize : Bool} {p : Plan} {site : Site} {root' : Chain}
    {entries' : List (String × Node)}
    (found : (ofPlan optimize p).plan.at? site = some (.list root' entries')) :
    ∃ root entries, p.at? site = some (.list root entries) ∧
      entries' = (ofPlan optimize entries).plan := by
  cases optimize with
  | false => exact ⟨root', entries', found, rfl⟩
  | true => exact Plan.exists_at?_of_share found

theorem exists_elementMapper? {o : Options} {template : Template} {m : Mapper}
    (compiled : compile template o = .ok m) {site : Site} {root : Chain}
    {entries : List (String × Node)} (found : m.plan.at? site = some (.list root entries)) :
    ∃ each, elementMapper? o template site = some each ∧ each.plan = entries := by
  have planned : ∀ template, compile template o =
      (Plan.ofTemplate o template).map (ofPlan o.optimize) :=
    fun template => compile_eq_map template o o.optimize
  rw [planned] at compiled
  cases plan : Plan.ofTemplate o template with
  | error e =>
    rw [plan] at compiled
    cases compiled
  | ok p =>
    rw [plan] at compiled
    obtain rfl := Except.ok.inj compiled
    obtain ⟨root', entries', plain, rfl⟩ := exists_at?_of_ofPlan found
    obtain ⟨_, element, there, alone⟩ := Plan.exists_at?_of_ofTemplate plan plain
    refine ⟨ofPlan o.optimize entries', ?_, rfl⟩
    rw [elementMapper?, there]
    dsimp only
    rw [planned, alone]
    rfl

theorem evaluate_eq_evaluateElement {each : Mapper} (ignores : IgnoreSuperRoot each.plan.chains)
    (scope : Scope) (item : Json) :
    each.evaluate item scope.context =
      (evaluateElement scope each.plan item).map fun result =>
        (.object (Fields.collect result.1), result.2.stats) := by
  have same : evaluateElement scope each.plan item =
      evaluateEntries ⟨item, item, scope.context⟩ {} each.plan :=
    (evaluateEntries_superRoot { scope with root := item } item {} ignores).symm
  rw [evaluate, same]
  cases evaluateEntries ⟨item, item, scope.context⟩ {} each.plan <;> rfl

theorem evaluateNode_list_eq_mapM {each : Mapper} (ignores : IgnoreSuperRoot each.plan.chains)
    {root : Chain} {scope : Scope} {r r' : Run} {outcome : Outcome} {items : List Json}
    (run : runChain root scope r = .ok (outcome, r'))
    (elements : listElements root outcome = .ok (some items)) :
    evaluateNode scope r (.list root each.plan) =
      (items.mapM fun item => each.evaluate item scope.context).map fun results =>
        (.value (.array (results.map Prod.fst)),
          { r' with elements := (results.map Prod.snd).foldl Stats.add r'.elements }) := by
  have alone : (items.mapM (evaluateElement scope each.plan)).map (List.map fun result =>
      (Json.object (Fields.collect result.1), result.2.stats)) =
      items.mapM fun item => each.evaluate item scope.context :=
    map_mapM_of_attempted fun item _ => (evaluate_eq_evaluateElement ignores scope item).symm
  rw [evaluateNode_list run elements, ← alone]
  cases items.mapM (evaluateElement scope each.plan) with
  | error e => rfl
  | ok results => simp [Except.map, List.foldl_map]

/-- A list that a mapper runs for each of its elements: it has the values in their order, or the
error of the first element that fails. -/
structure MapsElements (each : Mapper) (context : Json) (items : List Json) (r : Run)
    (given : Except EvalError (Outcome × Run)) : Prop where
  values : ∀ results,
    List.Forall₂ (fun item result => each.evaluate item context = .ok result) items results →
      given = .ok (.value (.array (results.map Prod.fst)),
        { r with elements := (results.map Prod.snd).foldl Stats.add r.elements })
  failure : ∀ before item after e, items = before ++ item :: after →
    (∀ other ∈ before, ∃ result, each.evaluate other context = .ok result) →
      each.evaluate item context = .error e → given = .error e

theorem mapsElements_of_list {each : Mapper} (ignores : IgnoreSuperRoot each.plan.chains)
    {root : Chain} {scope : Scope} {r r' : Run} {outcome : Outcome} {items : List Json}
    (run : runChain root scope r = .ok (outcome, r'))
    (elements : listElements root outcome = .ok (some items)) :
    MapsElements each scope.context items r' (evaluateNode scope r (.list root each.plan)) := by
  rw [evaluateNode_list_eq_mapM ignores run elements]
  constructor
  case values =>
    intro results all
    rw [mapM_eq_ok_iff.mpr all]
    rfl
  case failure =>
    rintro before item after e rfl passed failed
    rw [mapM_eq_error_of_first passed failed]
    rfl

/-! ### Counters -/

mutual

/-- The elements that lists on the table at hand map, each with the site of its list. -/
def visitsNode (scope : Scope) (r : Run) : Node → List (Site × Json)
  | .constant _ | .expression _ => []
  | .nested entries => visitsEntries scope r 0 entries
  | .list root _ => (elementsOf root scope r).map fun item => ([], item)
  | .sequence items => visitsItems scope r 0 items

def visitsEntries (scope : Scope) (r : Run) (n : Nat) :
    List (String × Node) → List (Site × Json)
  | [] => []
  | (_, node) :: rest =>
    (Turn.entry n).below (visitsNode scope r node) ++
      match evaluateNode scope r node with
      | .ok (_, r) => visitsEntries scope r (n + 1) rest
      | .error _ => []

def visitsItems (scope : Scope) (r : Run) (n : Nat) : List Node → List (Site × Json)
  | [] => []
  | node :: rest =>
    (Turn.item n).below (visitsNode scope r node) ++
      match evaluateNode scope r node with
      | .ok (.value _, r) => visitsItems scope r (n + 1) rest
      | _ => []

end

/-- The elements that a call maps for lists that are in no other list. -/
def visits (m : Mapper) (data context : Json) : List (Site × Json) :=
  visitsEntries ⟨data, data, context⟩ {} 0 m.plan

/-- The counters of an element that is mapped by the entries of the list at its site. -/
def Counts (scope : Scope) (place? : Site → Option Node) (visit : Site × Json) (stats : Stats) :
    Prop :=
  ∃ root entries result, place? visit.1 = some (.list root entries) ∧
    evaluateElement scope entries visit.2 = .ok result ∧ result.2.stats = stats

/-- The counters of lists grow by those of the elements, each counted once. -/
def Adds (scope : Scope) (place? : Site → Option Node) (visits : List (Site × Json))
    (before after : Stats) : Prop :=
  ∃ counters, List.Forall₂ (Counts scope place?) visits counters ∧
    after = counters.foldl Stats.add before

section Adds

variable {scope : Scope} {place? : Site → Option Node} {visits later : List (Site × Json)}
  {a b c : Stats}

theorem Adds.nil (scope : Scope) (place? : Site → Option Node) (a : Stats) :
    Adds scope place? [] a a := ⟨[], .nil, rfl⟩

theorem Adds.append (first : Adds scope place? visits a b) (rest : Adds scope place? later b c) :
    Adds scope place? (visits ++ later) a c := by
  obtain ⟨counters, each, rfl⟩ := first
  obtain ⟨counters', each', rfl⟩ := rest
  exact ⟨counters ++ counters', List.rel_append each each', List.foldl_append.symm⟩

theorem Adds.below {turn : Turn} {node : Node} (adds : Adds scope node.at? visits a b)
    (within : ∀ site, place? (turn :: site) = node.at? site) :
    Adds scope place? (turn.below visits) a b := by
  obtain ⟨counters, each, same⟩ := adds
  refine ⟨counters, ?_, same⟩
  rw [Turn.below, List.forall₂_map_left_iff]
  refine each.imp fun visit stats ⟨root, entries, result, found, rest⟩ => ?_
  exact ⟨root, entries, result, (within visit.1).trans found, rest⟩

end Adds

theorem elements_runChain {c : Chain} {scope : Scope} {r r' : Run} {outcome : Outcome}
    (h : runChain c scope r = .ok (outcome, r')) : r'.elements = r.elements := by
  rw [runChain] at h
  split at h
  · obtain ⟨-, rfl⟩ := Prod.mk.inj (Except.ok.inj h)
    rfl
  · cases h

mutual

theorem evaluateNode_adds {scope : Scope} {r r' : Run} {node : Node} {outcome : Outcome}
    (h : evaluateNode scope r node = .ok (outcome, r')) :
    Adds scope node.at? (visitsNode scope r node) r.elements r'.elements := by
  match node with
  | .constant v =>
    obtain ⟨-, rfl⟩ := Prod.mk.inj (Except.ok.inj h)
    exact .nil scope _ _
  | .expression c =>
    rw [elements_runChain h]
    exact .nil scope _ _
  | .nested entries =>
    obtain ⟨fields, run, -⟩ := evaluateNode_nested_eq_ok h
    refine evaluateEntries_adds _ (fun i site => ?_) run
    rw [Nat.zero_add, Node.at?_cons, Node.child?, Option.bind_map]
    rfl
  | .list root entries =>
    obtain ⟨given, r₁, run, ⟨none, -, rfl⟩ | ⟨items, results, some, all, -, rfl⟩⟩ :=
      evaluateNode_list_eq_ok h
    · rw [elements_runChain run, visitsNode, elementsOf, run]
      simp only [none]
      exact .nil scope _ _
    · rw [visitsNode, elementsOf_of_runChain run some, elements_runChain run]
      refine ⟨results.map fun result => result.2.stats, ?_, List.foldl_map.symm⟩
      rw [List.forall₂_map_left_iff, List.forall₂_map_right_iff]
      exact (mapM_eq_ok_iff.mp all).imp fun item result mapped =>
        ⟨root, entries, result, rfl, mapped, rfl⟩
  | .sequence items =>
    obtain ⟨values, run, -⟩ := evaluateNode_sequence_eq_ok h
    refine evaluateItems_adds _ (fun i site => ?_) run
    rw [Nat.zero_add, Node.at?_cons, Node.child?]

theorem evaluateEntries_adds (place? : Site → Option Node) {scope : Scope} {r r' : Run} {n : Nat}
    {entries : List (String × Node)} {fields : List (String × Json)}
    (within : ∀ i site, place? (.entry (n + i) :: site) =
      entries[i]?.bind fun entry => entry.2.at? site)
    (h : evaluateEntries scope r entries = .ok (fields, r')) :
    Adds scope place? (visitsEntries scope r n entries) r.elements r'.elements := by
  match entries with
  | [] =>
    obtain ⟨-, rfl⟩ := Prod.mk.inj (Except.ok.inj h)
    exact .nil scope _ _
  | (key, node) :: rest =>
    obtain ⟨outcome, r₁, later, run, runRest, -⟩ := evaluateEntries_cons_eq_ok h
    have first := (evaluateNode_adds run).below fun site => within 0 site
    -- The sites of the remaining entries are counted from the next number on.
    have withinRest : ∀ i site, place? (.entry (n + 1 + i) :: site) =
        rest[i]?.bind fun entry => entry.2.at? site := by
      intro i site
      rw [Nat.add_assoc, Nat.add_comm 1 i, within, List.getElem?_cons_succ]
    rw [visitsEntries, run]
    exact first.append (evaluateEntries_adds place? withinRest runRest)

theorem evaluateItems_adds (place? : Site → Option Node) {scope : Scope} {r r' : Run} {n : Nat}
    {items : List Node} {values : Option (List Json)}
    (within : ∀ i site, place? (.item (n + i) :: site) =
      items[i]?.bind fun node => node.at? site)
    (h : evaluateItems scope r items = .ok (values, r')) :
    Adds scope place? (visitsItems scope r n items) r.elements r'.elements := by
  match items with
  | [] =>
    obtain ⟨-, rfl⟩ := Prod.mk.inj (Except.ok.inj h)
    exact .nil scope _ _
  | node :: rest =>
    rcases evaluateItems_cons_eq_ok h with ⟨run, -⟩ | ⟨v, r₁, later, run, runRest, -⟩
    · have first := (evaluateNode_adds run).below fun site => within 0 site
      rw [visitsItems, run]
      exact first.append (.nil scope place? _)
    · have first := (evaluateNode_adds run).below fun site => within 0 site
      have withinRest : ∀ i site, place? (.item (n + 1 + i) :: site) =
          rest[i]?.bind fun node => node.at? site := by
        intro i site
        rw [Nat.add_assoc, Nat.add_comm 1 i, within, List.getElem?_cons_succ]
      rw [visitsItems, run]
      exact first.append (evaluateItems_adds place? withinRest runRest)

end

/-! ### Mappers -/

/-- The table that the chains of a call leave, those of list templates apart. -/
def ownTable (m : Mapper) (data context : Json) : Table :=
  Chain.tableAfter ⟨data, data, context⟩ .empty (traceEntries ⟨data, data, context⟩ {} m.plan).own

theorem evaluate_adds {m : Mapper} {data context v : Json} {stats : Stats}
    (h : m.evaluate data context = .ok (v, stats)) :
    ∃ elements, Adds ⟨data, data, context⟩ m.plan.at? (visits m data context) {} elements ∧
      stats = elements.add (ownTable m data context).stats := by
  rw [evaluate] at h
  obtain ⟨⟨fields, r⟩, run, h⟩ := bind_eq_ok_iff.mp h
  obtain ⟨-, rfl⟩ := Prod.mk.inj (pure_eq_ok_iff.mp h)
  have within : ∀ i site, m.plan.at? (.entry (0 + i) :: site) =
      m.plan[i]?.bind fun entry => entry.2.at? site := by
    intro i site
    rw [Nat.zero_add, Plan.at?, Node.at?_cons, Node.child?, Option.bind_map]
    rfl
  have adds := evaluateEntries_adds m.plan.at? within run
  have left := (traceEntries_passes run).2
  exact ⟨r.elements, adds, by rw [Run.stats, left]; rfl⟩

/-- A list maps each element as the mapper does that its template gives when it is compiled alone,
whatever is evaluated around the list and before the element. The counters of a call are those of
its own table with those of every such element. -/
theorem lists_map_elements_alone {o : Options} {template : Template} {m : Mapper}
    (compiled : compile template o = .ok m) (ignores : IgnoreSuperRoot m.plan.chains) :
    (∀ site root entries, m.plan.at? site = some (.list root entries) →
      ∃ each, elementMapper? o template site = some each ∧
        ∀ scope r outcome r' items, runChain root scope r = .ok (outcome, r') →
          listElements root outcome = .ok (some items) →
            MapsElements each scope.context items r'
              (evaluateNode scope r (.list root entries))) ∧
    ∀ data context v stats, m.evaluate data context = .ok (v, stats) →
      ∃ counters,
        List.Forall₂ (fun visit counted => ∃ each value,
          elementMapper? o template visit.1 = some each ∧
            each.evaluate visit.2 context = .ok (value, counted))
          (visits m data context) counters ∧
        stats = (counters.foldl Stats.add {}).add (ownTable m data context).stats := by
  have alone : ∀ {site root entries}, m.plan.at? site = some (.list root entries) →
      ∃ each, elementMapper? o template site = some each ∧ each.plan = entries ∧
        IgnoreSuperRoot each.plan.chains := by
    intro site root entries found
    obtain ⟨each, made, rfl⟩ := exists_elementMapper? compiled found
    refine ⟨each, made, rfl, fun c member => ignores c ?_⟩
    exact Node.mem_chains_of_at? found (List.mem_cons_of_mem _ member)
  constructor
  · intro site root entries found
    obtain ⟨each, made, rfl, within⟩ := alone found
    exact ⟨each, made, fun scope r outcome r' items run elements =>
      mapsElements_of_list within run elements⟩
  · intro data context v stats given
    obtain ⟨_, ⟨counters, each, rfl⟩, same⟩ := evaluate_adds given
    refine ⟨counters, each.imp fun visit counted => ?_, same⟩
    rintro ⟨root, entries, result, found, mapped, rfl⟩
    obtain ⟨each, made, rfl, within⟩ := alone found
    have run := evaluate_eq_evaluateElement within ⟨data, data, context⟩ visit.2
    rw [mapped] at run
    exact ⟨each, _, made, run⟩

/-- Lists in a list, with one path in all three templates. -/
def fleet : Template :=
  .mapping [("name", .expression "name"),
    ("ships", .list (.expression "ships")
      (.mapping [("name", .expression "name"),
        ("crew", .list (.expression "crew")
          (.mapping [("name", .expression "name"), ("alias", .expression "name")]))]))]

def fleetData : Json :=
  .object [("name", .string "home"),
    ("ships", .array
      [.object [("name", .string "Argo"), ("crew", .array [.object [("name", .string "Tiphys")]])],
        .object [("name", .string "Skidbladnir"), ("crew", .null)]])]

theorem lists_map_elements_alone_fleet :
    ∃ m, compile fleet {} = .ok m ∧ IgnoreSuperRoot m.plan.chains ∧ m.manifest.reuses = 1 ∧
      (∃ root entries each, m.plan.at? [.entry 1, .entry 1] = some (.list root entries) ∧
        elementMapper? {} fleet [.entry 1, .entry 1] = some each ∧
        ∀ scope r outcome r' items, runChain root scope r = .ok (outcome, r') →
          listElements root outcome = .ok (some items) →
            MapsElements each scope.context items r'
              (evaluateNode scope r (.list root entries))) ∧
      ∃ v counters,
        m.evaluate fleetData .null = .ok (v, ⟨1, 7, 7⟩) ∧
        List.Forall₂ (fun visit counted => ∃ each value,
          elementMapper? {} fleet visit.1 = some each ∧
            each.evaluate visit.2 .null = .ok (value, counted))
          (visits m fleetData .null) counters ∧
        ⟨1, 7, 7⟩ = (counters.foldl Stats.add {}).add (ownTable m fleetData .null).stats := by
  have checked : (compile fleet {}).toOption.map (fun m =>
      (m.plan.chains.all fun c => c.steps.all fun step => step.lookup.kind != "custom",
        (m.plan.at? [.entry 1, .entry 1]).map Node.kind, m.manifest.reuses,
        (m.evaluate fleetData .null).toOption.map Prod.snd)) =
      some (true, some "list", 1, some ⟨1, 7, 7⟩) := by
    decide +kernel
  cases compiled : compile fleet {} with
  | error e => simp [compiled, Except.toOption] at checked
  | ok m =>
    rw [compiled] at checked
    obtain ⟨known, place, reuses, counted⟩ := by
      simpa only [Except.toOption, Option.map_some, Option.some.injEq, Prod.mk.injEq] using checked
    have ignores : IgnoreSuperRoot m.plan.chains := by
      intro c member step among
      have custom := List.all_eq_true.mp (List.all_eq_true.mp known c member) step among
      exact Lookup.ignoresSuperRoot_of_kind (by simpa using custom)
    obtain ⟨lists, counters⟩ := lists_map_elements_alone compiled ignores
    refine ⟨m, rfl, ignores, reuses, ?_, ?_⟩
    · obtain ⟨node, found, kind⟩ := Option.map_eq_some_iff.mp place
      cases node with
      | list root entries =>
        obtain ⟨each, made, maps⟩ := lists _ root entries found
        exact ⟨root, entries, each, found, made, maps⟩
      | _ => simp [Node.kind] at kind
    · cases given : m.evaluate fleetData .null with
      | error e => simp [given] at counted
      | ok result =>
        obtain ⟨v, stats⟩ := result
        obtain rfl : stats = ⟨1, 7, 7⟩ := by simpa [given, Except.toOption] using counted
        obtain ⟨counters, each, sum⟩ := counters fleetData .null v _ given
        exact ⟨v, counters, rfl, each, sum⟩

end Mapper

end Reshape
