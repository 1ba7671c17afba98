import Reshape.Proofs.Mapper.Outcomes

/-!
Shared prefixes: a plan whose chains take known prefixes from the table gives the same as the plan
before. Whatever counts as known at some point of the plan is in the table when a run gets there.
-/

namespace Reshape

/-! ### Runs that look alike -/

/-- Two rows of chains do the same, one by one, when they run in turn. -/
def Chain.Alike (scope : Scope) (t : Table) : List Chain → List Chain → Prop
  | [], [] => True
  | d :: ds, c :: cs =>
    d.evaluate scope scope.root t = c.evaluate scope scope.root t ∧
      Alike scope (c.evaluate scope scope.root t).2 ds cs
  | _, _ => False

def Ledger.Alike (l l' : Ledger) : Prop :=
  l.scope = l'.scope ∧ Chain.Alike l'.scope .empty l.chains l'.chains

def Trace.Alike (scope : Scope) (t : Table) (trace trace' : Trace) : Prop :=
  Chain.Alike scope t trace.own trace'.own ∧ List.Forall₂ Ledger.Alike trace.inner trace'.inner

theorem Chain.Alike.refl (scope : Scope) (t : Table) (chains : List Chain) :
    Alike scope t chains chains := by
  induction chains generalizing t with
  | nil => trivial
  | cons c rest ih => exact ⟨rfl, ih _⟩

theorem Chain.Alike.append {scope : Scope} {t : Table} {ds cs ds' cs' : List Chain}
    (first : Alike scope t ds cs) (second : Alike scope (tableAfter scope t cs) ds' cs') :
    Alike scope t (ds ++ ds') (cs ++ cs') := by
  induction ds generalizing t cs with
  | nil =>
    cases cs with
    | nil => exact second
    | cons c cs => exact first.elim
  | cons d ds ih =>
    cases cs with
    | nil => exact first.elim
    | cons c cs => exact ⟨first.1, ih first.2 second⟩

theorem Trace.Alike.append {scope : Scope} {t : Table} {first first' second second' : Trace}
    (alike : first.Alike scope t first')
    (later : second.Alike scope (Chain.tableAfter scope t first'.own) second') :
    (first.append second).Alike scope t (first'.append second') :=
  ⟨alike.1.append later.1, List.rel_append alike.2 later.2⟩

/-! ### Known prefixes -/

namespace Plan.Sharing

/-- Every known prefix belongs to a chain that is known altogether, and has left its first step in
the table. -/
def Covers (seen : List String) (t : Table) : Prop :=
  ∀ path ∈ seen, ∃ c : Chain, c.WellSpelled ∧ path ∈ c.prefixes ∧
    (∀ other ∈ c.prefixes, other ∈ seen) ∧ t.contains (c.upTo 1)

theorem covers_nil (t : Table) : Covers [] t := nofun

theorem Covers.mono {seen : List String} {t t' : Table} (covers : Covers seen t)
    (kept : ∀ path, t.contains path → t'.contains path) : Covers seen t' := by
  intro path member
  obtain ⟨c, wellSpelled, own, all, known⟩ := covers path member
  exact ⟨c, wellSpelled, own, all, kept _ known⟩

theorem Covers.append {seen : List String} {t : Table} {c : Chain} (covers : Covers seen t)
    (wellSpelled : c.WellSpelled) (known : t.contains (c.upTo 1)) :
    Covers (seen ++ c.prefixes) t := by
  intro path member
  rcases List.mem_append.mp member with member | member
  · obtain ⟨d, wellSpelled', own, all, known'⟩ := covers path member
    exact ⟨d, wellSpelled', own, fun other among => List.mem_append_left _ (all other among), known'⟩
  · exact ⟨c, wellSpelled, member, fun _ => List.mem_append_right _, known⟩

theorem seen_shareChain (s : Sharing) (c : Chain) :
    (s.shareChain c).2.seen = s.seen ++ c.prefixes := by
  rw [shareChain]
  split <;> rfl

/-- If any prefix of a chain is known, its first step is: a chain is shared from there, or not at
all. -/
theorem shareChain_cases {s : Sharing} {c : Chain} {t : Table} (covers : Covers s.seen t)
    (wellSpelled : c.WellSpelled) :
    (s.shareChain c).1 = c ∨ (s.shareChain c).1 = c.reuse 0 ∧ t.contains (c.upTo 1) := by
  rw [shareChain]
  split
  · rename_i depth found
    obtain ⟨bound, known, least⟩ := List.findIdx?_eq_some_iff_getElem.mp found
    rw [List.contains_iff_mem] at known
    obtain ⟨d, wellSpelled', own, all, held⟩ := covers _ known
    obtain ⟨i, -, first⟩ := (Chain.mem_prefixes wellSpelled).mp (List.getElem_mem bound)
    obtain ⟨j, -, second⟩ := (Chain.mem_prefixes wellSpelled').mp own
    have same := Chain.upTo_one_eq wellSpelled wellSpelled' (first.symm.trans second)
    cases depth with
    | zero => exact .inr ⟨rfl, same ▸ held⟩
    | succ depth =>
      -- Were a longer prefix the shortest known one, the chain that brought it would have made the
      -- first step known with it.
      have front : c.prefixes[0] = c.upTo 1 := by
        simp only [Chain.prefixes_eq wellSpelled, List.getElem_map, List.getElem_range]
      have unknown := least 0 (Nat.zero_lt_succ depth)
      rw [front, same, List.contains_iff_mem] at unknown
      exact absurd (all _ (Chain.upTo_one_mem wellSpelled')) unknown
  · exact .inl rfl

end Plan.Sharing

namespace Mapper

open Plan (Sharing)
open Plan.Sharing (Covers)

/-- What a chain must be like to be shared: it spells a path, and its lookups remove nothing. -/
def Shareable (c : Chain) : Prop :=
  c.WellSpelled ∧ ∀ step ∈ c.steps, step.lookup.KeepsEntries

theorem evaluate_shareChain {s : Sharing} {c : Chain} {t : Table} (shareable : Shareable c)
    (covers : Covers s.seen t) (scope : Scope) (data : Json) :
    (s.shareChain c).1.evaluate scope data t = c.evaluate scope data t := by
  rcases Sharing.shareChain_cases covers shareable.1 with same | ⟨reused, known⟩
  · rw [same]
  · rw [reused, Chain.evaluate_reuse_zero shareable.1 known]

theorem runChain_shareChain {s : Sharing} {c : Chain} {r : Run} (shareable : Shareable c)
    (covers : Covers s.seen r.table) (scope : Scope) :
    runChain (s.shareChain c).1 scope r = runChain c scope r := by
  rw [runChain, runChain, evaluate_shareChain shareable covers]

theorem listElements_congr {root : Chain} {steps : List Step}
    (texts : steps.map Step.raw = root.texts) :
    listElements { root with steps } = listElements root := by
  have last : steps.getLast?.map Step.raw = root.steps.getLast?.map Step.raw := by
    rw [← List.getLast?_map, ← List.getLast?_map, texts, Chain.texts]
  funext outcome
  cases outcome with
  | skipped => rfl
  | value v =>
    unfold listElements
    simp only [last]
    rfl

theorem listElements_shareChain {s : Sharing} {c : Chain} {t : Table} (shareable : Shareable c)
    (covers : Covers s.seen t) : listElements (s.shareChain c).1 = listElements c := by
  rcases Sharing.shareChain_cases covers shareable.1 with same | ⟨reused, -⟩
  · rw [same]
  · obtain ⟨step, rest, split, -⟩ := Chain.exists_first shareable.1
    rw [reused, Chain.reuse_zero split]
    exact listElements_congr (by rw [Chain.texts, split]; rfl)

/-! ### What is known after a node -/

theorem contains_evaluateNode {scope : Scope} {r r' : Run} {node : Node} {outcome : Outcome}
    (shareable : ∀ c ∈ node.chains, Shareable c)
    (h : evaluateNode scope r node = .ok (outcome, r')) (path : String)
    (held : r.table.contains path) : r'.table.contains path := by
  rw [(traceNode_passes h).2]
  refine Chain.contains_tableAfter (fun c member => (shareable c ?_).2) held
  exact mem_chains_of_mem_trace (List.mem_append_left _ member)

theorem covers_shareChain {s : Sharing} {c : Chain} {scope : Scope} {t : Table}
    {outcome : Outcome} (shareable : Shareable c) (covers : Covers s.seen t)
    (passed : (c.evaluate scope scope.root t).1 = .ok outcome) :
    Covers (s.shareChain c).2.seen (c.evaluate scope scope.root t).2 := by
  rw [Sharing.seen_shareChain]
  have kept := covers.mono fun path held =>
    Chain.contains_evaluate shareable.2 scope scope.root held
  exact kept.append shareable.1
    (Chain.contains_upTo_one shareable.1 shareable.2 (Prod.ext passed rfl))

theorem covers_shareNode {s : Sharing} {scope : Scope} {r r' : Run} {node : Node}
    {outcome : Outcome} (shareable : ∀ c ∈ node.chains, Shareable c)
    (covers : Covers s.seen r.table) (h : evaluateNode scope r node = .ok (outcome, r')) :
    Covers (s.shareNode node).2.seen r'.table := by
  have kept := covers.mono (contains_evaluateNode shareable h)
  obtain ⟨passes, left⟩ := traceNode_passes h
  cases node with
  | constant v => exact kept
  | expression c =>
    obtain ⟨⟨given, passed⟩, -⟩ := passes
    rw [left]
    exact covers_shareChain (shareable c (List.mem_singleton_self c)) covers passed
  | nested entries => exact kept
  | list root entries =>
    obtain ⟨⟨given, passed⟩, -⟩ := passes
    rw [left]
    exact covers_shareChain (shareable root List.mem_cons_self) covers passed
  | sequence items => exact kept

/-! ### Shared plans -/

theorem alike_flatMap {α β : Type} {R : β → β → Prop} {f g : α → List β} {items : List α}
    (alike : ∀ item ∈ items, List.Forall₂ R (f item) (g item)) :
    List.Forall₂ R (items.flatMap f) (items.flatMap g) := by
  induction items with
  | nil => exact .nil
  | cons item items ih =>
    rw [List.forall_mem_cons] at alike
    exact List.rel_append alike.1 (ih alike.2)

mutual

/-- Sharing prefixes in a node changes neither what it gives nor what its chains do. -/
theorem evaluateNode_shareNode (s : Sharing) (scope : Scope) (r : Run) {node : Node}
    (shareable : ∀ c ∈ node.chains, Shareable c) (covers : Covers s.seen r.table) :
    evaluateNode scope r (s.shareNode node).1 = evaluateNode scope r node ∧
      (traceNode scope r (s.shareNode node).1).Alike scope r.table (traceNode scope r node) := by
  match node with
  | .constant v => exact ⟨rfl, trivial, .nil⟩
  | .expression c =>
    have own := shareable c (List.mem_singleton_self c)
    exact ⟨runChain_shareChain own covers scope,
      ⟨evaluate_shareChain own covers scope scope.root, trivial⟩, .nil⟩
  | .nested entries =>
    -- The entries run on the same table, but nothing in it counts as known to their scope.
    obtain ⟨same, alike⟩ := evaluateEntries_shareEntries s.enterScope scope r
      shareable (Sharing.covers_nil _)
    refine ⟨?_, alike⟩
    rw [Sharing.shareNode, evaluateNode, evaluateNode]
    simp only [same]
  | .list root entries =>
    have own := shareable root List.mem_cons_self
    -- Elements run on tables of their own, so the scope of the entries must know nothing.
    have each := fun item => evaluateEntries_shareEntries
      (s.shareChain root).2.enterScope { scope with root := item } {}
      (fun c member => shareable c (List.mem_cons_of_mem _ member)) (Sharing.covers_nil _)
    have run := runChain_shareChain own covers scope
    have elements := listElements_shareChain own covers
    have element : evaluateElement scope ((s.shareChain root).2.enterScope.shareEntries entries).1 =
        evaluateElement scope entries := funext fun item => (each item).1
    rw [Sharing.shareNode]
    refine ⟨?_, ⟨evaluate_shareChain own covers scope scope.root, trivial⟩, ?_⟩
    · rw [evaluateNode, evaluateNode]
      simp only [run, elements, fun item => (each item).1]
    · rw [traceNode, traceNode]
      simp only [elementsOf, run, elements, element]
      exact alike_flatMap fun item _ => .cons ⟨rfl, (each item).2.1⟩ (each item).2.2
  | .sequence items =>
    obtain ⟨same, alike⟩ := evaluateItems_shareItems s scope r shareable covers
    refine ⟨?_, alike⟩
    rw [Sharing.shareNode, evaluateNode, evaluateNode]
    simp only [same]

theorem evaluateEntries_shareEntries (s : Sharing) (scope : Scope) (r : Run)
    {entries : List (String × Node)} (shareable : ∀ c ∈ Node.entriesChains entries, Shareable c)
    (covers : Covers s.seen r.table) :
    evaluateEntries scope r (s.shareEntries entries).1 = evaluateEntries scope r entries ∧
      (traceEntries scope r (s.shareEntries entries).1).Alike scope r.table
        (traceEntries scope r entries) := by
  match entries with
  | [] => exact ⟨rfl, trivial, .nil⟩
  | (key, node) :: rest =>
    rw [Node.entriesChains, List.forall_mem_append] at shareable
    obtain ⟨same, alike⟩ := evaluateNode_shareNode s scope r shareable.1 covers
    rw [Sharing.shareEntries]
    match run : evaluateNode scope r node with
    | .error e =>
      have run' := same.trans run
      rw [evaluateEntries_cons_error run, evaluateEntries_cons_error run',
        traceEntries_cons_error run, traceEntries_cons_error run']
      exact ⟨rfl, alike⟩
    | .ok (outcome, r') =>
      have run' := same.trans run
      obtain ⟨later, alikeLater⟩ := evaluateEntries_shareEntries _ scope r' shareable.2
        (covers_shareNode shareable.1 covers run)
      rw [evaluateEntries_cons_ok run, evaluateEntries_cons_ok run', traceEntries_cons_ok run,
        traceEntries_cons_ok run', later]
      rw [(traceNode_passes run).2] at alikeLater
      exact ⟨rfl, alike.append alikeLater⟩

theorem evaluateItems_shareItems (s : Sharing) (scope : Scope) (r : Run) {items : List Node}
    (shareable : ∀ c ∈ Node.itemsChains items, Shareable c) (covers : Covers s.seen r.table) :
    evaluateItems scope r (s.shareItems items).1 = evaluateItems scope r items ∧
      (traceItems scope r (s.shareItems items).1).Alike scope r.table
        (traceItems scope r items) := by
  match items with
  | [] => exact ⟨rfl, trivial, .nil⟩
  | node :: rest =>
    rw [Node.itemsChains, List.forall_mem_append] at shareable
    obtain ⟨same, alike⟩ := evaluateNode_shareNode s scope r shareable.1 covers
    rw [Sharing.shareItems]
    match run : evaluateNode scope r node with
    | .error e =>
      have run' := same.trans run
      rw [evaluateItems_cons_error run, evaluateItems_cons_error run',
        traceItems_cons_error run, traceItems_cons_error run']
      exact ⟨rfl, alike⟩
    | .ok (.skipped, r') =>
      have run' := same.trans run
      rw [evaluateItems_cons_skipped run, evaluateItems_cons_skipped run',
        traceItems_cons_skipped run, traceItems_cons_skipped run']
      exact ⟨rfl, alike⟩
    | .ok (.value v, r') =>
      have run' := same.trans run
      obtain ⟨later, alikeLater⟩ := evaluateItems_shareItems _ scope r' shareable.2
        (covers_shareNode shareable.1 covers run)
      rw [evaluateItems_cons_value run, evaluateItems_cons_value run', traceItems_cons_value run,
        traceItems_cons_value run', later]
      rw [(traceNode_passes run).2] at alikeLater
      exact ⟨rfl, alike.append alikeLater⟩

end

theorem evaluate_share {p : Plan} (shareable : ∀ c ∈ p.chains, Shareable c)
    (manifest manifest' : Manifest) (data context : Json) :
    evaluate ⟨p.share.1, manifest⟩ data context = evaluate ⟨p, manifest'⟩ data context := by
  rw [evaluate, evaluate, Plan.share,
    (evaluateEntries_shareEntries _ _ _ shareable (Sharing.covers_nil _)).1]

theorem ledgers_share {p : Plan} (shareable : ∀ c ∈ p.chains, Shareable c) (data context : Json) :
    List.Forall₂ Ledger.Alike (ledgers p.share.1 data context) (ledgers p data context) := by
  obtain ⟨own, inner⟩ := (evaluateEntries_shareEntries (Sharing.enterScope {})
    ⟨data, data, context⟩ {} shareable (Sharing.covers_nil _)).2
  exact .cons ⟨rfl, own⟩ inner

/-! ### Shared mappers -/

/-- The mapper of a plan, whose chains share prefixes or do not. -/
def ofPlan (optimize : Bool) (p : Plan) : Mapper :=
  let (p, sharing) := if optimize then p.share else (p, {})
  ⟨p, .ofPlan p sharing⟩

theorem compile_eq_map (template : Template) (o : Options) (optimize : Bool) :
    compile template { o with optimize } =
      (Plan.ofTemplate o template).map (ofPlan optimize) := by
  rw [compile, Plan.ofTemplate_optimize]
  cases Plan.ofTemplate o template <;> rfl

theorem evaluate_ofPlan {p : Plan} (shareable : ∀ c ∈ p.chains, Shareable c) (optimize : Bool)
    (data context : Json) :
    (ofPlan optimize p).evaluate data context = (ofPlan false p).evaluate data context := by
  cases optimize with
  | false => rfl
  | true => exact evaluate_share shareable _ _ data context

theorem ledgers_ofPlan {p : Plan} (shareable : ∀ c ∈ p.chains, Shareable c) (optimize : Bool)
    (data context : Json) :
    List.Forall₂ Ledger.Alike (ledgers (ofPlan optimize p).plan data context)
      (ledgers p data context) := by
  cases optimize with
  | false => exact List.forall₂_same.mpr fun l _ => ⟨rfl, .refl l.scope .empty l.chains⟩
  | true => exact ledgers_share shareable data context

theorem ofPlan_ne_missingMemo {p : Plan}
    (builtin : ∀ c ∈ p.chains, ∀ step ∈ c.steps, step.lookup.IsBuiltin) (data context : Json)
    (key : String) : (ofPlan false p).evaluate data context ≠ .error (.missingMemo key) := by
  refine evaluate_ne_error (fun l member => ?_)
    fun root _ outcome => listElements_ne_missingMemo root outcome key
  refine Chain.each_of_invariant (fun c among t settled => ?_) Table.settled_empty
  obtain ⟨present, left⟩ := Chain.evaluate_settled
    (builtin c (mem_chains_of_mem_ledgers member among)) settled l.scope l.scope.root
  exact ⟨present key, left⟩

/-- Sharing prefixes changes nothing but the counters of the manifest: compilation succeeds or fails
alike, and the mappers give the same values, errors and counters. With built-in lookups no memo is
ever missing. -/
theorem compile_optimize (o : Options) (template : Template)
    (constructed : ∀ c ∈ template.chains, c.Constructed)
    (keeps : ∀ c ∈ template.chains, ∀ step ∈ c.steps, step.lookup.KeepsEntries)
    (keepsMade : ∀ l, o.registry.Makes l → l.KeepsEntries) :
    (∀ e, compile template { o with optimize := true } = .error e ↔
      compile template { o with optimize := false } = .error e) ∧
    ∀ optimized plain, compile template { o with optimize := true } = .ok optimized →
      compile template { o with optimize := false } = .ok plain →
      (∀ data context, optimized.evaluate data context = plain.evaluate data context) ∧
        ((∀ c ∈ plain.plan.chains, ∀ step ∈ c.steps, step.lookup.IsBuiltin) →
          ∀ data context key, optimized.evaluate data context ≠ .error (.missingMemo key)) := by
  simp only [compile_eq_map]
  cases compiled : Plan.ofTemplate o template with
  | error e => exact ⟨fun _ => .rfl, nofun⟩
  | ok p =>
    have shareable : ∀ c ∈ p.chains, Shareable c := fun c member =>
      have supplied := Plan.supplied_of_ofTemplate compiled member
      ⟨(supplied.compiled constructed).wellSpelled, supplied.lookups keepsMade keeps⟩
    have same := evaluate_ofPlan shareable true
    refine ⟨fun e => ⟨nofun, nofun⟩, fun optimized plain first second => ?_⟩
    obtain rfl := Except.ok.inj first
    obtain rfl := Except.ok.inj second
    refine ⟨same, fun builtin data context key => ?_⟩
    rw [same]
    exact ofPlan_ne_missingMemo builtin data context key

def storing : Registry :=
  Registry.standard.register (some "put") fun _ =>
    .ok (.custom fun _ node t => (.ok node, t.insert "put" (.ok node)))

theorem keepsEntries_of_storing {l : Lookup} (makes : storing.Makes l) : l.KeepsEntries := by
  rcases Registry.makes_register makes with ⟨_, made⟩ | makes
  · obtain rfl := Except.ok.inj made
    exact fun _ node _ _ held => Table.contains_insert held "put" (.ok node)
  · exact (Registry.isBuiltin_of_makes makes).ignoresTable.keepsEntries

/-- A chain that was compiled before, behind a path that starts with the same step. -/
def storingTemplate : Template :=
  .mapping [("first", .expression "x.<put>"),
    ("second", .chain ⟨"x.y", [⟨"x", .key "x"⟩, ⟨"y", .key "y"⟩], none, .skip, "pathmap.registry"⟩)]

theorem compile_optimize_storing :
    (∀ c ∈ storingTemplate.chains, c.Constructed) ∧
      (∀ c ∈ storingTemplate.chains, ∀ step ∈ c.steps, step.lookup.KeepsEntries) ∧
      (∀ l, storing.Makes l → l.KeepsEntries) ∧
      (compile storingTemplate { registry := storing }).toOption.map (·.manifest.reuses) = some 1 ∧
      ∀ optimized plain, compile storingTemplate { registry := storing } = .ok optimized →
        compile storingTemplate { registry := storing, optimize := false } = .ok plain →
        ∀ data context, optimized.evaluate data context = plain.evaluate data context := by
  have constructed : ∀ c ∈ storingTemplate.chains, c.Constructed := fun c member =>
    List.mem_singleton.mp member ▸ .compiled ⟨"x.y", { failMode := .skip }, rfl⟩
  have keeps : ∀ c ∈ storingTemplate.chains, ∀ step ∈ c.steps, step.lookup.KeepsEntries := by
    intro c member step among
    obtain rfl := List.mem_singleton.mp member
    rcases List.mem_pair.mp among with rfl | rfl
    all_goals exact Lookup.IgnoresTable.keepsEntries fun _ _ _ => rfl
  have keepsMade : ∀ l, storing.Makes l → l.KeepsEntries := fun _ => keepsEntries_of_storing
  refine ⟨constructed, keeps, keepsMade, by decide +kernel, fun optimized plain first second => ?_⟩
  exact ((compile_optimize { registry := storing } storingTemplate constructed keeps keepsMade).2
    optimized plain first second).1

end Mapper

end Reshape
