import Reshape.Proofs.Chain.Compilation
import Reshape.Proofs.Chain.Ending
import Reshape.Proofs.Chain.Visits

/-!
Replays. A chain of built-in lookups adds to a table the prefixes that it visits and changes nothing
else there. On the table that it leaves it gives the same again, by reading alone and for any data.
-/

namespace Reshape.Chain

variable {t later : Table} {step : Step} {steps : List Step}

/-! ### One step -/

theorem find?_runStep_of_isBuiltin (builtin : step.lookup.IsBuiltin) (scope : Scope) (path : String)
    (node : Json) (t : Table) :
    (runStep scope step path node t).2.find? path = some (runStep scope step path node t).1 := by
  rcases runStep_cases scope step path node t with
    ⟨outcome, found, hit⟩ | ⟨-, key, t', given, -⟩ | ⟨-, outcome, t', -, -, miss⟩
  · rw [hit]
    exact found
  · exact absurd (congrArg Prod.fst given) (builtin.ne_missingMemo scope node t key)
  · rw [miss]
    exact Table.find?_insert_self t' path outcome

theorem contains_runStep_iff (builtin : step.lookup.IsBuiltin) (scope : Scope) (path : String)
    (node : Json) (t : Table) (other : String) :
    (runStep scope step path node t).2.contains other ↔ t.contains other ∨ other = path := by
  have own := find?_runStep_of_isBuiltin builtin scope path node t
  constructor
  · intro held
    by_cases same : other = path
    · exact .inr same
    · refine .inl ?_
      rcases runStep_cases scope step path node t with
        ⟨outcome, -, hit⟩ | ⟨-, key, t', given, -⟩ | ⟨-, outcome, t', given, -, miss⟩
      · rwa [hit] at held
      · exact absurd (congrArg Prod.fst given) (builtin.ne_missingMemo scope node t key)
      · rw [builtin.ignoresTable] at given
        obtain ⟨-, rfl⟩ := Prod.mk.inj given
        rwa [miss, Table.contains, Table.find?_insert_of_ne t same] at held
  · rintro (held | rfl)
    · exact contains_runStep builtin.ignoresTable.keepsEntries scope path node held
    · exact Table.contains_iff.mpr ⟨_, own⟩

/-! ### All steps -/

theorem contains_runSteps_iff (builtin : ∀ step ∈ steps, step.lookup.IsBuiltin) (scope : Scope)
    (path : String) (node : Json) (t : Table) (other : String) :
    (runSteps scope steps path node t).2.contains other ↔
      t.contains other ∨ other ∈ visitsFrom scope steps path node t := by
  induction steps generalizing path node t with
  | nil => simp [runSteps, visitsFrom]
  | cons step rest ih =>
    rw [List.forall_mem_cons] at builtin
    have first := contains_runStep_iff builtin.1 scope (extendPrefix path step.raw) node t other
    rw [runSteps, visitsFrom]
    cases run : runStep scope step (extendPrefix path step.raw) node t with
    | mk outcome left =>
      rw [run] at first
      cases outcome with
      | error cause => simpa using first
      | ok next =>
        have rest := ih builtin.2 (extendPrefix path step.raw) next left
        simp only [rest, first, List.mem_cons, or_assoc]

/-- A table that has all entries of the one that the steps left replays them. -/
theorem runSteps_replay (builtin : ∀ step ∈ steps, step.lookup.IsBuiltin) {scope : Scope}
    {path : String} {node : Json} {t : Table}
    (kept : ∀ other outcome, (runSteps scope steps path node t).2.find? other = some outcome →
      later.find? other = some outcome) (scope' : Scope) :
    runSteps scope' steps path node later =
      ((runSteps scope steps path node t).1,
        { later with reads := later.reads + (visitsFrom scope steps path node t).length }) := by
  -- Induction on the steps that are left; what the first one yields stays in the table of the rest.
  induction steps generalizing path node t later with
  | nil => rfl
  | cons step rest ih =>
    rw [List.forall_mem_cons] at builtin
    have stored := find?_runStep_of_isBuiltin builtin.1 scope (extendPrefix path step.raw) node t
    rw [runSteps] at kept ⊢
    rw [runSteps, visitsFrom]
    cases run : runStep scope step (extendPrefix path step.raw) node t with
    | mk outcome left =>
      rw [run] at stored
      simp only [run] at kept ⊢
      cases outcome with
      | error cause =>
        rw [runStep_of_find? (kept _ _ stored)]
        rfl
      | ok next =>
        have ignores := fun step member => (builtin.2 step member).ignoresTable
        have held := kept _ _ (find?_runSteps ignores scope (extendPrefix path step.raw) next stored)
        rw [runStep_of_find? held]
        have again := ih builtin.2 (fun other outcome found =>
          show ({ later with reads := later.reads + 1 } : Table).find? other = some outcome from
            kept other outcome found)
        rw [List.length_cons]
        simp only [again, Nat.add_assoc, Nat.add_comm 1]

/-- With its first prefix in the table, a chain does not look at the data. -/
theorem runSteps_of_known {rest : List Step} {path : String} {outcome : Except LookupError Json}
    (known : t.find? (extendPrefix path step.raw) = some outcome) (scope : Scope) (node node' : Json) :
    runSteps scope (step :: rest) path node t = runSteps scope (step :: rest) path node' t := by
  rw [runSteps, runSteps, runStep_of_find? known, runStep_of_find? known]

/-! ### Which prefixes are visited -/

theorem length_prefixesFrom (path : String) (steps : List Step) :
    (prefixesFrom path steps).length = steps.length := by
  induction steps generalizing path with
  | nil => rfl
  | cons step rest ih => rw [prefixesFrom, List.length_cons, List.length_cons, ih]

variable {c : Chain} {v : Visit} {cause : LookupError}

theorem visitsFrom_of_error {scope : Scope} {start : String} {data : Json} {left : Table}
    (at_ : steps[v.number]? = some v.step) (here : (prefixesFrom start steps)[v.number]? = some v.path)
    (comes : runSteps scope (steps.take v.number) start data t = (.ok v.node, v.table))
    (failed : v.run scope = (.error cause, left)) :
    visitsFrom scope steps start data t = (prefixesFrom start steps).take (v.number + 1) := by
  obtain ⟨n, step, path, node, reached⟩ := v
  induction steps generalizing n start data t with
  | nil => cases at_
  | cons first rest ih =>
    cases n with
    | zero =>
      obtain ⟨same, rfl⟩ := Prod.mk.inj comes
      obtain rfl := Except.ok.inj same
      obtain rfl := Option.some.inj at_
      obtain rfl := Option.some.inj here
      rw [Visit.run] at failed
      simp only [visitsFrom, prefixesFrom, failed, List.take_succ_cons, List.take_zero]
    | succ n =>
      rw [List.take_succ_cons, runSteps] at comes
      rw [visitsFrom, prefixesFrom, List.take_succ_cons]
      generalize runStep scope first (extendPrefix start first.raw) data t = run at comes ⊢
      obtain ⟨_ | next, t'⟩ := run
      · cases (Prod.mk.inj comes).1
      · exact congrArg _ (ih n at_ here comes failed)

/-- How many steps are visited: all of them, or those up to the one that ends the evaluation. -/
theorem visits_eq_take (c : Chain) (scope : Scope) (data : Json) (t : Table) :
    ∃ m, c.visits scope data t = c.prefixes.take m ∧
      ((∃ value, (runSteps scope c.steps "" data t).1 = .ok value ∧ m = c.steps.length) ∨
        ∃ v cause, c.StopsAt scope data t v cause ∧ m = v.number + 1) := by
  rcases value_or_stopsAt c scope data t with ⟨value, given, -⟩ | ⟨v, cause, stops⟩
  · refine ⟨c.steps.length, ?_, .inl ⟨value, given, rfl⟩⟩
    rw [prefixes, List.take_of_length_le (length_prefixesFrom "" c.steps).le]
    rcases visitsFrom_cases scope c.steps "" data t with ⟨-, -, all⟩ | ⟨_, _, _, _, _, -, -, failed, -⟩
    · exact all
    · rw [given] at failed
      cases failed
  · refine ⟨v.number + 1, ?_, .inr ⟨v, cause, stops, rfl⟩⟩
    have failed : v.run scope = (.error cause, (v.run scope).2) := Prod.ext stops.fails.fst_run rfl
    exact visitsFrom_of_error stops.visits.step stops.visits.path stops.visits.comes failed

/-! ### The whole chain -/

theorem contains_evaluate_iff (builtin : ∀ step ∈ c.steps, step.lookup.IsBuiltin) (scope : Scope)
    (data : Json) (t : Table) (path : String) :
    (c.evaluate scope data t).2.contains path ↔ t.contains path ∨ path ∈ c.visits scope data t := by
  rw [snd_evaluate]
  exact contains_runSteps_iff builtin scope "" data t path

theorem evaluate_congr {scope scope' : Scope} {data data' : Json} {t t' after : Table}
    (same : runSteps scope' c.steps "" data' t' = ((runSteps scope c.steps "" data t).1, after)) :
    c.evaluate scope' data' t' = ((c.evaluate scope data t).1, after) := by
  rw [evaluate, evaluate, same]
  cases runSteps scope c.steps "" data t with
  | mk outcome left => cases outcome <;> rfl

theorem evaluate_again (nonempty : c.steps ≠ []) (builtin : ∀ step ∈ c.steps, step.lookup.IsBuiltin)
    (scope scope' : Scope) (data data' : Json) (t : Table) :
    let after := (c.evaluate scope data t).2
    c.evaluate scope' data' after =
      ((c.evaluate scope data t).1,
        { after with reads := after.reads + (c.visits scope data t).length }) := by
  intro after
  refine evaluate_congr ?_
  have replay : runSteps scope' c.steps "" data after = _ := runSteps_replay builtin
    (fun other outcome found => by rwa [← snd_evaluate] at found) scope'
  rw [visits, ← replay]
  cases split : c.steps with
  | nil => exact absurd split nonempty
  | cons step rest =>
    -- The first prefix is visited, so it is in the table.
    have first : extendPrefix "" step.raw ∈ c.visits scope data t := by
      rw [visits, split, visitsFrom]
      exact List.mem_cons_self
    have held := (contains_evaluate_iff builtin scope data t _).mpr (.inr first)
    obtain ⟨outcome, known⟩ := Table.contains_iff.mp held
    exact runSteps_of_known known scope' data' data

/-- All chains there are have a step. -/
theorem Constructed.steps_ne_nil (constructed : c.Constructed) : c.steps ≠ [] := by
  induction constructed with
  | @compiled c compiled =>
    obtain ⟨source, o, done⟩ := compiled
    obtain ⟨path, steps, read, made, rfl⟩ := compile_eq_ok_iff.mp done
    have nonempty := (Path.read_eq_ok_iff.mp read).1
    have same := (mapM_eq_ok_iff.mp made).length_eq
    intro empty
    rw [show steps = [] from empty, List.length_nil] at same
    exact nonempty (List.length_eq_zero_iff.mp same)
  | @reuse c depth _ ih =>
    rw [Chain.reuse]
    split
    · exact List.cons_ne_nil _ _
    · exact ih

/-- A chain of built-in lookups leaves all entries of the table as they are and adds the prefixes of
its visited steps that were absent. Afterwards it gives the same on any data, from that table alone:
one read for each visited step, no write and no new entry. (A chain without steps would give back
other data, but none is constructed: `Constructed.steps_ne_nil`.) -/
theorem evaluate_replays (nonempty : c.steps ≠ [])
    (builtin : ∀ step ∈ c.steps, step.lookup.IsBuiltin) (scope : Scope) (data : Json) (t : Table) :
    let after := (c.evaluate scope data t).2
    ∃ m,
      ((∃ value, (runSteps scope c.steps "" data t).1 = .ok value ∧ m = c.steps.length) ∨
        ∃ v cause, c.StopsAt scope data t v cause ∧ m = v.number + 1) ∧
      (∀ path outcome, t.find? path = some outcome → after.find? path = some outcome) ∧
      (∀ path, after.contains path ↔ t.contains path ∨ path ∈ c.prefixes.take m) ∧
      ∀ scope' data', c.evaluate scope' data' after =
        ((c.evaluate scope data t).1, { after with reads := after.reads + m }) := by
  intro after
  obtain ⟨m, visited, ends⟩ := visits_eq_take c scope data t
  have ignores := fun step member => (builtin step member).ignoresTable
  have length : (c.visits scope data t).length = m := by
    have bound : m ≤ c.prefixes.length := by
      rw [prefixes, length_prefixesFrom]
      rcases ends with ⟨_, -, rfl⟩ | ⟨v, _, stops, rfl⟩
      · exact le_rfl
      · exact (List.getElem?_eq_some_iff.mp stops.visits.step).1
    rw [visited, List.length_take_of_le bound]
  refine ⟨m, ends, fun path outcome => find?_evaluate ignores scope data, fun path => ?_,
    fun scope' data' => ?_⟩
  · rw [← visited]
    exact contains_evaluate_iff builtin scope data t path
  · rw [← length]
    exact evaluate_again nonempty builtin scope scope' data data' t

/-- The table holds the first prefix already, with a value that is not in the data, and one that the
chain does not have. -/
theorem evaluate_replays_stored :
    let c : Chain := ⟨"ship.crew.cook", [⟨"ship", .key "ship"⟩, ⟨"crew", .key "crew"⟩,
      ⟨"cook", .key "cook"⟩], none, .skip, "harbour"⟩
    let t : Table := ⟨[("ship", .ok (.object [("crew", .object [])])), ("port", .error .notFound)], 3, 2⟩
    let after : Table := ⟨t.entries ++ [("ship.crew", .ok (.object [])),
      ("ship.crew.cook", .error (.keyNotFound "cook"))], 4, 4⟩
    c.steps ≠ [] ∧ (∀ step ∈ c.steps, step.lookup.IsBuiltin) ∧
      c.evaluate ⟨.null, .null, .null⟩ .null t = (.ok .skipped, after) ∧
      ∀ scope' data', c.evaluate scope' data' after = (.ok .skipped, { after with reads := 7 }) := by
  intro c t after
  have builtin : ∀ step ∈ c.steps, step.lookup.IsBuiltin := by
    simp [c, Lookup.IsBuiltin]
  have first : c.evaluate ⟨.null, .null, .null⟩ .null t = (.ok .skipped, after) := rfl
  refine ⟨List.cons_ne_nil _ _, builtin, first, fun scope' data' => ?_⟩
  obtain ⟨m, -, -, -, again⟩ :=
    evaluate_replays (List.cons_ne_nil _ _) builtin ⟨.null, .null, .null⟩ .null t
  rw [first] at again
  have once : c.evaluate ⟨.null, .null, .null⟩ .null after =
    (.ok .skipped, { after with reads := 7 }) := rfl
  have reads : 4 + m = 7 := congrArg (fun result => result.2.reads) ((again _ _).symm.trans once)
  obtain rfl : m = 3 := by omega
  exact again scope' data'

end Reshape.Chain
