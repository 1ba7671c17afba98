import Reshape.Proofs.Chain.Borrowing
import Reshape.Proofs.Mapper.Sharing

/-!
Chains that were compiled ahead, with registries of their own. In a mapper such a chain gives what it
gives alone, once it has borrowed the lookups of the chains before it on the same table.
-/

namespace Reshape

namespace Chain

theorem each_getElem? {may : Scope → Chain → Except EvalError Outcome → Prop} {scope : Scope}
    {t : Table} {chains : List Chain} (each : Each may scope t chains) {n : Nat} {c : Chain}
    (found : chains[n]? = some c) :
    may scope c (c.evaluate scope scope.root (tableAfter scope t (chains.take n))).1 := by
  induction chains generalizing t n with
  | nil => cases found
  | cons d rest ih =>
    cases n with
    | zero =>
      obtain rfl := Option.some.inj found
      exact each.1
    | succ n => exact ih each.2 found

/-- On one table every chain gives what it gives from scratch with the lookups that it borrows. -/
theorem each_borrow {scope : Scope} {all before rest : List Chain} {t : Table}
    (row : all = before ++ rest) (wellSpelled : ∀ c ∈ all, c.WellSpelled)
    (ignores : ∀ c ∈ all, ∀ step ∈ c.steps, step.lookup.IgnoresTable)
    (proceeds : Proceeds scope t rest) (exhausted : ∀ d ∈ before, Exhausts t d)
    (faithful : Faithful (all.map (·.borrow all)) scope scope.root t) :
    Each (fun scope c given => given = (c.borrow all).direct scope scope.root) scope t rest := by
  -- Induction on the chains that are still to run; those before them have nothing left to add to
  -- the table, so only their lookups can be borrowed.
  induction rest generalizing before t with
  | nil => trivial
  | cons c rest ih =>
    have among : c ∈ all := by simp [row]
    have among' : ∀ d ∈ before, d ∈ all := fun d member => by simp [row, member]
    have own := wellSpelled c among
    have same : c.borrow all = c.borrow before := by rw [row, borrow_append own]
    have alike := evaluate_borrow own (fun d member => wellSpelled d (among' d member))
      (ignores c among) exhausted scope scope.root
    rw [← same] at alike
    obtain ⟨given, kept⟩ := faithful.evaluate (coherent_borrow wellSpelled)
      (List.mem_map_of_mem among) (own.borrow all)
      (borrow_ignoresTable wellSpelled ignores (ignores c among))
    rw [alike] at given kept
    refine ⟨given, ?_⟩
    cases rest with
    | nil => trivial
    | cons next rest =>
      obtain ⟨outcome, passed⟩ := proceeds.1 (List.cons_ne_nil _ _)
      have row' : all = (before ++ [c]) ++ next :: rest := by simpa using row
      refine ih row' proceeds.2 (fun d member => ?_) kept
      rcases List.mem_append.mp member with member | member
      · exact (exhausted d member).mono fun path stored held =>
          find?_evaluate (ignores c among) scope scope.root held
      · obtain rfl := List.mem_singleton.mp member
        exact exhausts_evaluate own (ignores d among) passed

theorem Alike.length_eq {scope : Scope} {t : Table} {ds cs : List Chain} (alike : Alike scope t ds cs) :
    ds.length = cs.length := by
  induction ds generalizing t cs with
  | nil =>
    cases cs with
    | nil => rfl
    | cons c cs => exact alike.elim
  | cons d ds ih =>
    cases cs with
    | nil => exact alike.elim
    | cons c cs => rw [List.length_cons, List.length_cons, ih alike.2]

theorem Alike.getElem? {scope : Scope} {t : Table} {ds cs : List Chain} (alike : Alike scope t ds cs)
    (n : Nat) :
    (ds[n]?.map fun d => (d.evaluate scope scope.root (tableAfter scope t (ds.take n))).1) =
      cs[n]?.map fun c => (c.evaluate scope scope.root (tableAfter scope t (cs.take n))).1 := by
  induction ds generalizing t cs n with
  | nil =>
    cases cs with
    | nil => rfl
    | cons c cs => exact alike.elim
  | cons d ds ih =>
    cases cs with
    | nil => exact alike.elim
    | cons c cs =>
      obtain ⟨same, later⟩ := alike
      cases n with
      | zero => exact congrArg (fun result => some result.1) same
      | succ n =>
        simp only [List.getElem?_cons_succ, List.take_succ_cons, tableAfter, List.foldl_cons, same]
        exact ih later n

end Chain

theorem Ledger.Alike.outcome? {l l' : Ledger} (alike : l.Alike l') (n : Nat) :
    l.outcome? n = l'.outcome? n := by
  obtain ⟨same, chains⟩ := alike
  rw [Ledger.outcome?, Ledger.outcome?, same]
  exact chains.getElem? n

namespace Mapper

theorem outcome?_of_mem_ledgers {p : Plan} (wellSpelled : ∀ c ∈ p.chains, c.WellSpelled)
    (ignores : ∀ c ∈ p.chains, ∀ step ∈ c.steps, step.lookup.IgnoresTable) {data context : Json}
    {l : Ledger} (member : l ∈ ledgers p data context) {n : Nat} {c : Chain}
    (found : l.chains[n]? = some c) :
    l.outcome? n = some ((c.borrow (l.chains.take n)).evaluateAlone l.scope l.scope.root) := by
  have among : ∀ d ∈ l.chains, d ∈ p.chains := fun d => mem_chains_of_mem_ledgers member
  have spelled : ∀ d ∈ l.chains, d.WellSpelled := fun d here => wellSpelled d (among d here)
  have ignoring : ∀ d ∈ l.chains, ∀ step ∈ d.steps, step.lookup.IgnoresTable :=
    fun d here => ignores d (among d here)
  have each := Chain.each_borrow (List.nil_append l.chains).symm spelled ignoring
    (proceeds_of_mem_ledgers member) nofun (Chain.faithful_empty _ l.scope l.scope.root)
  have here := List.mem_of_getElem? found
  have own := spelled c here
  have row : l.chains = l.chains.take n ++ c :: l.chains.drop (n + 1) := by
    obtain ⟨bound, rfl⟩ := List.getElem?_eq_some_iff.mp found
    rw [List.getElem_cons_drop, List.take_append_drop]
  have same : c.borrow l.chains = c.borrow (l.chains.take n) := by
    conv_lhs => rw [row, Chain.borrow_append own]
  have alone := Chain.evaluateAlone_eq_direct (own.borrow l.chains)
    (Chain.borrow_ignoresTable spelled ignoring (ignoring c here)) l.scope l.scope.root
  rw [← same, alone, Ledger.outcome?, found, Option.map_some, Chain.each_getElem? each found]

/-- In a compiled mapper a chain gives what it gives alone with the lookups that it borrows. So it is
used as it is just where these make no difference, which they do not if all earlier chains on the
table agree with it. -/
theorem outcome_of_chain {o : Options} {template : Template} {m : Mapper}
    (compiled : compile template o = .ok m) (constructed : ∀ c ∈ template.chains, c.Constructed)
    (ignores : ∀ c ∈ template.chains, ∀ step ∈ c.steps, step.lookup.IgnoresTable)
    (ignoresMade : ∀ l, o.registry.Makes l → l.IgnoresTable) :
    ∃ p, Plan.ofTemplate o template = .ok p ∧ ∀ data context,
      List.Forall₂
        (fun l own =>
          l.scope = own.scope ∧ l.chains.length = own.chains.length ∧
            ∀ n c, own.chains[n]? = some c →
              let alone := c.evaluateAlone own.scope own.scope.root
              let borrowing :=
                (c.borrow (own.chains.take n)).evaluateAlone own.scope own.scope.root
              l.outcome? n = some borrowing ∧ (l.outcome? n = some alone ↔ borrowing = alone) ∧
                ((∀ d ∈ own.chains.take n, d.Agrees c) → l.outcome? n = some alone))
        (ledgers m.plan data context) (ledgers p data context) := by
  have mapped := compile_eq_map template o o.optimize
  rw [compiled] at mapped
  cases planned : Plan.ofTemplate o template with
  | error e => simp [planned, Except.map] at mapped
  | ok p =>
    rw [planned] at mapped
    obtain rfl := Except.ok.inj mapped
    have supplied : ∀ c ∈ p.chains, Plan.Supplied o template.chains c :=
      fun c => Plan.supplied_of_ofTemplate planned
    have wellSpelled : ∀ c ∈ p.chains, c.WellSpelled := fun c member =>
      ((supplied c member).compiled constructed).wellSpelled
    have ignoresAll : ∀ c ∈ p.chains, ∀ step ∈ c.steps, step.lookup.IgnoresTable :=
      fun c member => (supplied c member).lookups ignoresMade ignores
    have shareable : ∀ c ∈ p.chains, Shareable c := fun c member =>
      ⟨wellSpelled c member, fun step among => (ignoresAll c member step among).keepsEntries⟩
    refine ⟨p, rfl, fun data context => ?_⟩
    have alike := (ledgers_ofPlan shareable o.optimize data context).flip
    have both := (List.forall₂_and_left _ _).mpr ⟨fun _ member => member, alike⟩
    refine List.Forall₂.flip (both.imp ?_)
    rintro own l ⟨member, alike⟩
    refine ⟨alike.1, alike.2.length_eq, fun n c found => ?_⟩
    have given := (Ledger.Alike.outcome? alike n).trans
      (outcome?_of_mem_ledgers wellSpelled ignoresAll member found)
    refine ⟨given, by rw [given, Option.some_inj], fun agree => ?_⟩
    have here := wellSpelled c (mem_chains_of_mem_ledgers member (List.mem_of_getElem? found))
    rwa [Chain.borrow_eq_self here agree] at given

def wholeNode : Lookup := .custom fun _ node t => (.ok node, t)

/-- A registry in which every bare key stands for the whole node. -/
def wholeNodes : Registry := Registry.standard.register none fun _ => .ok wholeNode

/-- Two chains with one text, compiled ahead with registries that disagree about it. -/
def disputed : Template :=
  .mapping [("first", .chain ⟨"x", [⟨"x", .key "x"⟩], none, .fail, "pathmap.registry"⟩),
    ("second", .chain ⟨"x", [⟨"x", wholeNode⟩], none, .fail, "pathmap.registry"⟩)]

theorem constructed_of_disputed : ∀ c ∈ disputed.chains, c.Constructed := by
  intro c member
  rcases List.mem_pair.mp member with rfl | rfl
  · exact .compiled ⟨"x", {}, rfl⟩
  · exact .compiled ⟨"x", { registry := wholeNodes }, rfl⟩

theorem ignoresTable_of_disputed :
    ∀ c ∈ disputed.chains, ∀ step ∈ c.steps, step.lookup.IgnoresTable := by
  intro c member step among
  rcases List.mem_pair.mp member with rfl | rfl
  all_goals
    obtain rfl := List.mem_singleton.mp among
    exact fun _ _ _ => rfl

theorem outcome_of_chain_disputed :
    (∀ c ∈ disputed.chains, c.Constructed) ∧
      (∀ c ∈ disputed.chains, ∀ step ∈ c.steps, step.lookup.IgnoresTable) ∧
      (∀ l, Registry.standard.Makes l → l.IgnoresTable) ∧
      (compile disputed {}).toOption.isSome ∧
      ∀ m, compile disputed {} = .ok m →
        ∃ p, Plan.ofTemplate {} disputed = .ok p ∧ ∀ data context,
          List.Forall₂
            (fun l own => ∀ n c, own.chains[n]? = some c →
              l.outcome? n = some
                ((c.borrow (own.chains.take n)).evaluateAlone own.scope own.scope.root))
            (ledgers m.plan data context) (ledgers p data context) := by
  have ignoresMade : ∀ l, Registry.standard.Makes l → l.IgnoresTable :=
    fun _ makes => (Registry.isBuiltin_of_makes makes).ignoresTable
  refine ⟨constructed_of_disputed, ignoresTable_of_disputed, ignoresMade, by decide +kernel, ?_⟩
  intro m compiled
  obtain ⟨p, planned, all⟩ :=
    outcome_of_chain compiled constructed_of_disputed ignoresTable_of_disputed ignoresMade
  exact ⟨p, planned, fun data context => (all data context).imp fun l own both n c found =>
    (both.2.2 n c found).1⟩

/-- The second chain gives what the first gives, and not what it gives alone. -/
theorem outcome_ne_evaluateAlone :
    let data := Json.object [("x", .string "y")]
    let second : Chain := ⟨"x", [⟨"x", wholeNode⟩], none, .fail, "pathmap.registry"⟩
    second ∈ disputed.chains ∧ second.hasMemo = false ∧
      second.evaluateAlone ⟨data, data, .null⟩ data = .ok (.value data) ∧
      ((compile disputed {}).map fun m => (ledgers m.plan data .null).map (·.outcome? 1)) =
        .ok [some (.ok (.value (.string "y")))] ∧
      ((compile disputed {}).map fun m => (m.evaluate data .null).map Prod.fst) =
        .ok (.ok (.object [("first", .string "y"), ("second", .string "y")])) :=
  ⟨List.mem_pair.mpr (.inr rfl), rfl, rfl, rfl, rfl⟩

end Mapper

end Reshape
