import Mathlib.Algebra.GroupWithZero.Nat
import Reshape.Proofs.Chain.Visits
import Reshape.Proofs.Mapper.Elements
import Reshape.Proofs.Plan.Rewriting

/-!
Accounting: what the counters of a call add up to. Every visit of a chain to a prefix is one read or
one write of the table it runs on, and the counters of all tables are summed, each once.
-/

namespace Reshape

/-! ### Sums of counters -/

instance : Zero Stats := ⟨{}⟩

instance : Add Stats := ⟨Stats.add⟩

instance : AddCommMonoid Stats where
  add_assoc a b c := by
    change (a.add b).add c = a.add (b.add c)
    simp only [Stats.add, Nat.add_assoc]
  zero_add a := by
    change Stats.add {} a = a
    simp only [Stats.add, Nat.zero_add]
  add_zero a := by
    change a.add {} = a
    simp only [Stats.add, Nat.add_zero]
  add_comm a b := by
    change a.add b = b.add a
    simp only [Stats.add, Nat.add_comm]
  nsmul := nsmulRec

@[simp]
theorem Stats.reads_add (a b : Stats) : (a + b).reads = a.reads + b.reads := rfl

@[simp]
theorem Stats.writes_add (a b : Stats) : (a + b).writes = a.writes + b.writes := rfl

@[simp]
theorem Stats.entries_add (a b : Stats) : (a + b).entries = a.entries + b.entries := rfl

theorem Stats.foldl_add {α : Type} (f : α → Stats) (xs : List α) (start : Stats) :
    xs.foldl (fun stats x => stats.add (f x)) start = start + (xs.map f).sum := by
  induction xs generalizing start with
  | nil => exact (add_zero start).symm
  | cons x xs ih =>
    rw [List.foldl_cons, ih, List.map_cons, List.sum_cons, ← add_assoc]
    rfl

/-! ### Visits of chains that run in turn -/

namespace Chain

def visitsInTurn (scope : Scope) (t : Table) : List Chain → List String
  | [] => []
  | c :: rest =>
    c.visits scope scope.root t ++ visitsInTurn scope (c.evaluate scope scope.root t).2 rest

theorem accounts_tableAfter {scope : Scope} {t : Table} {visited : List String} {chains : List Chain}
    (accounts : t.Accounts visited) (regular : ∀ c ∈ chains, Regular "" c.steps)
    (passes : Passes scope t chains) :
    (tableAfter scope t chains).Accounts (visited ++ visitsInTurn scope t chains) := by
  induction chains generalizing t visited with
  | nil =>
    rw [visitsInTurn, List.append_nil]
    exact accounts
  | cons c rest ih =>
    rw [List.forall_mem_cons] at regular
    obtain ⟨⟨outcome, passed⟩, later⟩ := passes
    have first := accounts_evaluate _ accounts regular.1 passed
    rw [visitsInTurn, ← List.append_assoc]
    exact ih first regular.2 later

end Chain

namespace Ledger

/-- The table that the chains leave. -/
def table (l : Ledger) : Table := Chain.tableAfter l.scope .empty l.chains

def visits (l : Ledger) : List String := Chain.visitsInTurn l.scope .empty l.chains

def Passes (l : Ledger) : Prop := Chain.Passes l.scope .empty l.chains

end Ledger

namespace Mapper

/-! ### The tables of a call that succeeds -/

theorem attempted_of_mapM_eq_ok {α β ε : Type} {f : α → Except ε β} {xs : List α} {ys : List β}
    (all : List.Forall₂ (fun x y => f x = .ok y) xs ys) : attempted f xs = xs := by
  induction all with
  | nil => rfl
  | cons first _ ih => rw [attempted, first, ih]

/-- All these tables are finished, and their counters come to this sum. -/
structure SumsTo (ledgers : List Ledger) (sum : Stats) : Prop where
  passes : ∀ l ∈ ledgers, l.Passes
  sum : sum = (ledgers.map fun l => l.table.stats).sum

theorem SumsTo.nil : SumsTo [] 0 := ⟨nofun, rfl⟩

theorem SumsTo.append {first second : List Ledger} {a b : Stats} (sums : SumsTo first a)
    (later : SumsTo second b) : SumsTo (first ++ second) (a + b) := by
  refine ⟨List.forall_mem_append.mpr ⟨sums.passes, later.passes⟩, ?_⟩
  rw [sums.sum, later.sum, List.map_append, List.sum_append]

theorem SumsTo.cons {l : Ledger} {ledgers : List Ledger} {a : Stats} (passes : l.Passes)
    (sums : SumsTo ledgers a) : SumsTo (l :: ledgers) (a + l.table.stats) := by
  refine ⟨List.forall_mem_cons.mpr ⟨passes, sums.passes⟩, ?_⟩
  rw [sums.sum, List.map_cons, List.sum_cons, add_comm]

/-- An evaluation adds the counters of the tables of list elements to those it finds. -/
def Settles (r r' : Run) (ledgers : List Ledger) : Prop :=
  ∃ sum, SumsTo ledgers sum ∧ r'.elements = r.elements + sum

theorem Settles.refl (r : Run) : Settles r r [] := ⟨0, .nil, (add_zero _).symm⟩

theorem Settles.trans {r r₁ r' : Run} {first second : List Ledger} (settles : Settles r r₁ first)
    (later : Settles r₁ r' second) : Settles r r' (first ++ second) := by
  obtain ⟨a, sums, added⟩ := settles
  obtain ⟨b, sums', added'⟩ := later
  exact ⟨a + b, sums.append sums', by rw [added', added, add_assoc]⟩

/-- An evaluation on an empty table finishes that table as well. -/
theorem Settles.sumsTo {scope : Scope} {trace : Trace} {r' : Run}
    (settles : Settles {} r' trace.inner) (passes : Chain.Passes scope .empty trace.own)
    (left : r'.table = Chain.tableAfter scope .empty trace.own) :
    SumsTo (trace.ledgers scope) r'.stats := by
  obtain ⟨sum, sums, added⟩ := settles
  have elements : r'.elements = sum := added.trans (zero_add sum)
  have stats : r'.stats = sum + (Ledger.table ⟨scope, trace.own⟩).stats := by
    rw [Run.stats, elements, left]
    rfl
  rw [stats]
  exact sums.cons passes

theorem sumsTo_flatMap {α : Type} {f : α → List Ledger} {xs : List α} {sums : List Stats}
    (each : List.Forall₂ (fun x sum => SumsTo (f x) sum) xs sums) : SumsTo (xs.flatMap f) sums.sum := by
  induction each with
  | nil => exact .nil
  | cons first _ ih =>
    rw [List.flatMap_cons, List.sum_cons]
    exact first.append ih

mutual

theorem evaluateNode_settles {scope : Scope} {r r' : Run} {node : Node} {outcome : Outcome}
    (h : evaluateNode scope r node = .ok (outcome, r')) :
    Settles r r' (traceNode scope r node).inner := by
  match node with
  | .constant v =>
    obtain ⟨-, rfl⟩ := Prod.mk.inj (Except.ok.inj h)
    exact .refl r
  | .expression c =>
    have same := elements_runChain h
    exact ⟨0, .nil, same.trans (add_zero _).symm⟩
  | .nested entries =>
    obtain ⟨fields, run, -⟩ := evaluateNode_nested_eq_ok h
    exact evaluateEntries_settles run
  | .list root entries =>
    obtain ⟨given, r₁, run, ⟨none, -, rfl⟩ | ⟨items, results, some, all, -, rfl⟩⟩ :=
      evaluateNode_list_eq_ok h
    · have same := elements_runChain run
      rw [traceNode, elementsOf, run]
      simp only [none]
      exact ⟨0, .nil, same.trans (add_zero _).symm⟩
    · have each := mapM_eq_ok_iff.mp all
      have same := elements_runChain run
      rw [traceNode, elementsOf_of_runChain run some, attempted_of_mapM_eq_ok each]
      refine ⟨(results.map fun result => result.2.stats).sum, sumsTo_flatMap ?_, ?_⟩
      · rw [List.forall₂_map_right_iff]
        refine each.imp fun item result mapped => ?_
        obtain ⟨passes, left⟩ := traceEntries_passes mapped
        exact (evaluateEntries_settles mapped).sumsTo passes left
      · dsimp only
        rw [Stats.foldl_add, same]
  | .sequence items =>
    obtain ⟨values, run, -⟩ := evaluateNode_sequence_eq_ok h
    exact evaluateItems_settles run

theorem evaluateEntries_settles {scope : Scope} {r r' : Run} {entries : List (String × Node)}
    {fields : List (String × Json)} (h : evaluateEntries scope r entries = .ok (fields, r')) :
    Settles r r' (traceEntries scope r entries).inner := by
  match entries with
  | [] =>
    obtain ⟨-, rfl⟩ := Prod.mk.inj (Except.ok.inj h)
    exact .refl r
  | (key, node) :: rest =>
    obtain ⟨outcome, r₁, later, run, runRest, -⟩ := evaluateEntries_cons_eq_ok h
    rw [traceEntries_cons_ok run]
    exact (evaluateNode_settles run).trans (evaluateEntries_settles runRest)

theorem evaluateItems_settles {scope : Scope} {r r' : Run} {items : List Node}
    {values : Option (List Json)} (h : evaluateItems scope r items = .ok (values, r')) :
    Settles r r' (traceItems scope r items).inner := by
  match items with
  | [] =>
    obtain ⟨-, rfl⟩ := Prod.mk.inj (Except.ok.inj h)
    exact .refl r
  | node :: rest =>
    rcases evaluateItems_cons_eq_ok h with ⟨run, -⟩ | ⟨v, r₁, later, run, runRest, -⟩
    · rw [traceItems_cons_skipped run]
      exact evaluateNode_settles run
    · rw [traceItems_cons_value run]
      exact (evaluateNode_settles run).trans (evaluateItems_settles runRest)

end

theorem sumsTo_of_evaluate {m : Mapper} {data context v : Json} {stats : Stats}
    (h : m.evaluate data context = .ok (v, stats)) : SumsTo (ledgers m.plan data context) stats := by
  rw [evaluate] at h
  obtain ⟨⟨fields, r⟩, run, h⟩ := bind_eq_ok_iff.mp h
  obtain ⟨-, rfl⟩ := Prod.mk.inj (pure_eq_ok_iff.mp h)
  obtain ⟨passes, left⟩ := traceEntries_passes run
  exact (evaluateEntries_settles run).sumsTo passes left

/-! ### Shared plans -/

theorem regular_fromMemo {c : Chain} (ignores : ∀ step ∈ c.steps, step.lookup.IgnoresTable) :
    Chain.Regular "" c.fromMemo.steps := by
  cases split : c.steps with
  | nil =>
    rw [Chain.fromMemo, split]
    exact Chain.regular_of_ignoresTable ignores ""
  | cons step rest =>
    rw [split, List.forall_mem_cons] at ignores
    rw [Chain.fromMemo_of_split split]
    exact ⟨.inr rfl, Chain.regular_of_ignoresTable ignores.2 _⟩

theorem regular_of_ofPlan {p : Plan} (wellSpelled : ∀ c ∈ p.chains, c.WellSpelled)
    (ignores : ∀ c ∈ p.chains, ∀ step ∈ c.steps, step.lookup.IgnoresTable) (optimize : Bool) :
    ∀ c ∈ (ofPlan optimize p).plan.chains, Chain.Regular "" c.steps := by
  cases optimize with
  | false => exact fun c member => Chain.regular_of_ignoresTable (ignores c member) ""
  | true =>
    change ∀ c ∈ p.share.1.chains, Chain.Regular "" c.steps
    rw [(Plan.share_eq wellSpelled).1, Plan.chains, Plan.mapChains, ← Node.map_snd_entriesSites 0,
      Node.entriesSites_mapEntries]
    simp only [List.map_map, List.forall_mem_map]
    intro place member
    have among : place.2 ∈ p.chains := by
      rw [Plan.chains, ← Node.map_snd_entriesSites 0]
      exact List.mem_map_of_mem member
    have own := ignores place.2 among
    dsimp only [Function.comp_apply]
    rw [rewriteWhere]
    split
    · exact regular_fromMemo own
    · exact Chain.regular_of_ignoresTable own ""

/-! ### Totals -/

theorem SumsTo.totals {ledgers : List Ledger} {sum : Stats} (sums : SumsTo ledgers sum)
    (accounts : ∀ l ∈ ledgers, l.table.Accounts l.visits) :
    sum.entries = sum.writes ∧
      sum.reads + sum.writes = (ledgers.map fun l => l.visits.length).sum := by
  obtain ⟨-, rfl⟩ := sums
  induction ledgers with
  | nil => exact ⟨rfl, rfl⟩
  | cons l rest ih =>
    rw [List.forall_mem_cons] at accounts
    obtain ⟨entries, visits⟩ := ih accounts.2
    have writes : l.table.stats.writes = l.table.stats.entries := accounts.1.writes
    have counted : l.table.stats.reads + l.table.stats.writes = l.visits.length := accounts.1.counted
    simp only [List.map_cons, List.sum_cons, Stats.reads_add, Stats.writes_add, Stats.entries_add]
    omega

/-- The counters of a call are the sums over its tables: that of the call itself and one for every
element of a list. A table holds each prefix that is visited on it once and has written it once, and
all further visits are reads. -/
theorem evaluate_accounts {o : Options} {template : Template} {m : Mapper}
    (compiled : compile template o = .ok m)
    (constructed : ∀ c ∈ template.chains, c.Constructed)
    (ignores : ∀ c ∈ template.chains, ∀ step ∈ c.steps, step.lookup.IgnoresTable)
    (ignoresMade : ∀ l, o.registry.Makes l → l.IgnoresTable) {data context v : Json} {stats : Stats}
    (given : m.evaluate data context = .ok (v, stats)) :
    stats.entries = stats.writes ∧
      stats.reads + stats.writes =
        ((ledgers m.plan data context).map fun l => l.visits.length).sum ∧
      stats = ((ledgers m.plan data context).map fun l => l.table.stats).sum ∧
      ∀ l ∈ ledgers m.plan data context, l.table.Accounts l.visits := by
  have planned : compile template o = (Plan.ofTemplate o template).map (ofPlan o.optimize) :=
    compile_eq_map template o o.optimize
  rw [planned] at compiled
  cases plan : Plan.ofTemplate o template with
  | error e =>
    rw [plan] at compiled
    cases compiled
  | ok p =>
    rw [plan] at compiled
    obtain rfl := Except.ok.inj compiled
    have supplied := fun c (member : c ∈ p.chains) => Plan.supplied_of_ofTemplate plan member
    have regular := regular_of_ofPlan
      (fun c member => ((supplied c member).compiled constructed).wellSpelled)
      (fun c member => (supplied c member).lookups ignoresMade ignores) o.optimize
    have sums := sumsTo_of_evaluate given
    have accounts : ∀ l ∈ ledgers (ofPlan o.optimize p).plan data context,
        l.table.Accounts l.visits := fun l member =>
      Chain.accounts_tableAfter Table.accounts_empty
        (fun c among => regular c (mem_chains_of_mem_ledgers member among)) (sums.passes l member)
    obtain ⟨entries, visits⟩ := sums.totals accounts
    exact ⟨entries, visits, sums.sum, accounts⟩

/-- A failure in a sequence that is met again behind it, elements of a list that fail, and a chain
that was compiled before. -/
def voyage : Template :=
  .mapping [("name", .expression "ship.name"),
    ("rig", .sequence [.expression "ship.year", .expression "ship.mast", .expression "ship.sail"]),
    ("mast", .expression "ship.mast"),
    ("crew", .list (.expression "ship.crew")
      (.mapping [("name", .expression "name"), ("rank", .expression "rank"),
        ("sign", .expression "name.0")])),
    ("port", .chain
      ⟨"ship.port", [⟨"ship", .key "ship"⟩, ⟨"port", .key "port"⟩], none, .skip, "pathmap.registry"⟩)]

def voyageData : Json :=
  .object [("ship", .object [("name", .string "Argo"), ("year", .string "1"),
    ("crew", .array [.object [("name", .string "Tiphys")],
      .object [("name", .string "Lynceus"), ("rank", .string "pilot")]])])]

theorem evaluate_accounts_voyage :
    (∀ c ∈ voyage.chains, c.Constructed) ∧
      (∀ c ∈ voyage.chains, ∀ step ∈ c.steps, step.lookup.IgnoresTable) ∧
      (∀ l, Registry.standard.Makes l → l.IgnoresTable) ∧
      ∃ m v, compile voyage { failMode := .skip } = .ok m ∧ m.manifest.reuses = 7 ∧
        m.evaluate voyageData .null = .ok (v, ⟨8, 12, 12⟩) ∧
        20 = ((ledgers m.plan voyageData .null).map fun l => l.visits.length).sum ∧
        ∀ l ∈ ledgers m.plan voyageData .null, l.table.Accounts l.visits := by
  have constructed : ∀ c ∈ voyage.chains, c.Constructed := fun c member =>
    List.mem_singleton.mp member ▸ .compiled ⟨"ship.port", { failMode := .skip }, rfl⟩
  have ignores : ∀ c ∈ voyage.chains, ∀ step ∈ c.steps, step.lookup.IgnoresTable := by
    intro c member step among
    obtain rfl := List.mem_singleton.mp member
    rcases List.mem_pair.mp among with rfl | rfl
    all_goals exact fun _ _ _ => rfl
  have ignoresMade : ∀ l, Registry.standard.Makes l → l.IgnoresTable :=
    fun _ makes => (Registry.isBuiltin_of_makes makes).ignoresTable
  have checked : (compile voyage { failMode := .skip }).toOption.map (fun m =>
      (m.manifest.reuses, (m.evaluate voyageData .null).toOption.map Prod.snd)) =
      some (7, some ⟨8, 12, 12⟩) := by
    decide +kernel
  refine ⟨constructed, ignores, ignoresMade, ?_⟩
  cases compiled : compile voyage { failMode := .skip } with
  | error e => simp [compiled, Except.toOption] at checked
  | ok m =>
    rw [compiled] at checked
    obtain ⟨reuses, counted⟩ := by
      simpa only [Except.toOption, Option.map_some, Option.some.injEq, Prod.mk.injEq] using checked
    cases given : m.evaluate voyageData .null with
    | error e => simp [given] at counted
    | ok result =>
      obtain ⟨v, stats⟩ := result
      obtain rfl : stats = ⟨8, 12, 12⟩ := by simpa [given, Except.toOption] using counted
      obtain ⟨-, visits, -, accounts⟩ :=
        evaluate_accounts compiled constructed ignores ignoresMade given
      exact ⟨m, v, rfl, reuses, given, visits, accounts⟩

end Mapper

end Reshape
