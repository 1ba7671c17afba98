import Reshape.Proofs.Chain.MissingMemo

/-!
The end of an evaluation. A chain gives the value of its last step, or stops at the first step that
yields a failure. Such a failure is in the table before the fail mode settles it; only a missing memo
is neither stored nor settled, whatever the lookups are and wherever memo steps stand.
-/

namespace Reshape

/-- A step that a run comes to, by number and with the prefix it completes, and the node and the
table that it finds. -/
structure Visit where
  number : Nat
  step : Step
  path : String
  node : Json
  table : Table

namespace Visit

/-- The step yields what is stored under its prefix or, if nothing is, what its lookup gives. -/
def Yields (v : Visit) (scope : Scope) (outcome : Except LookupError Json) : Prop :=
  v.table.find? v.path = some outcome ∨
    v.table.find? v.path = none ∧ (v.step.lookup.evaluate scope v.node v.table).1 = outcome

def run (v : Visit) (scope : Scope) : Except LookupError Json × Table :=
  Chain.runStep scope v.step v.path v.node v.table

variable {v : Visit} {scope : Scope}

theorem yields_run (v : Visit) (scope : Scope) : v.Yields scope (v.run scope).1 := by
  rcases Chain.runStep_cases scope v.step v.path v.node v.table with
    ⟨outcome, found, hit⟩ | ⟨absent, key, t', given, missing⟩ | ⟨absent, outcome, t', given, -, miss⟩
  · rw [run, hit]
    exact .inl found
  · rw [run, missing]
    exact .inr ⟨absent, congrArg Prod.fst given⟩
  · rw [run, miss]
    exact .inr ⟨absent, by rw [given]⟩

theorem Yields.fst_run {outcome : Except LookupError Json} (yields : v.Yields scope outcome) :
    (v.run scope).1 = outcome := by
  rcases yields with found | ⟨absent, given⟩
  · rw [run, Chain.runStep_of_find? found]
  · rcases yields_run v scope with found | ⟨-, same⟩
    · rw [absent] at found
      cases found
    · rw [← same, given]

/-- On a table that holds no missing memo, one that is yielded comes from the lookup, and the table
is left as the lookup leaves it. -/
theorem Yields.run_missingMemo {key : String} (settled : v.table.Settled)
    (yields : v.Yields scope (.error (.missingMemo key))) :
    v.run scope =
      (.error (.missingMemo key), (v.step.lookup.evaluate scope v.node v.table).2) := by
  have given := yields.fst_run
  rw [run] at given ⊢
  rcases Chain.runStep_cases scope v.step v.path v.node v.table with
    ⟨outcome, found, hit⟩ | ⟨-, key', t', lookup, missing⟩ | ⟨-, outcome, t', -, present, miss⟩
  · rw [hit] at given
    obtain rfl : outcome = _ := given
    exact absurd found (settled v.path key)
  · rw [missing] at given ⊢
    rw [lookup]
    exact Prod.ext given rfl
  · rw [miss] at given
    exact absurd given (present key)

theorem Yields.find?_run {outcome : Except LookupError Json} (yields : v.Yields scope outcome)
    (present : ∀ key, outcome ≠ .error (.missingMemo key)) :
    (v.run scope).2.find? v.path = some outcome := by
  have stored := Chain.find?_runStep_self (Prod.mk.eta (p := v.run scope)).symm
  rw [yields.fst_run] at stored
  exact stored present

end Visit

namespace Chain

/-- The steps before the visited one all pass, and this is what they lead to. -/
structure Visits (c : Chain) (scope : Scope) (data : Json) (t : Table) (v : Visit) : Prop where
  step : c.steps[v.number]? = some v.step
  path : c.prefixes[v.number]? = some v.path
  comes : runSteps scope (c.steps.take v.number) "" data t = (.ok v.node, v.table)

/-- The visited step yields a failure, which ends the evaluation. -/
structure StopsAt (c : Chain) (scope : Scope) (data : Json) (t : Table) (v : Visit)
    (cause : LookupError) : Prop where
  visits : c.Visits scope data t v
  fails : v.Yields scope (.error cause)

variable {c : Chain} {scope : Scope} {data node : Json} {t reached : Table} {step : Step}
  {path : String} {v : Visit} {cause : LookupError}

/-! ### The steps before -/

theorem runSteps_of_error {steps : List Step} {start : String} {left : Table}
    (at_ : steps[v.number]? = some v.step) (here : (prefixesFrom start steps)[v.number]? = some v.path)
    (comes : runSteps scope (steps.take v.number) start data t = (.ok v.node, v.table))
    (failed : v.run scope = (.error cause, left)) :
    runSteps scope steps start data t = (.error (v.step.raw, cause), left) := by
  obtain ⟨n, step, path, node, reached⟩ := v
  induction steps generalizing n start data t with
  | nil => cases at_
  | cons first rest ih =>
    cases n with
    | zero =>
      obtain ⟨same, rfl⟩ := Prod.mk.inj comes
      obtain rfl := Except.ok.inj same
      obtain rfl := Option.some.inj at_
      obtain rfl := Option.some.inj here
      rw [Visit.run] at failed
      rw [runSteps, failed]
    | succ n =>
      simp only [List.take_succ_cons, runSteps] at comes ⊢
      split at comes
      · exact ih n at_ here comes failed
      · cases (Prod.mk.inj comes).1

/-- All steps pass, or there is a first one that does not. -/
theorem runSteps_cases (scope : Scope) (steps : List Step) (start : String) (data : Json)
    (t : Table) :
    (∃ value, (runSteps scope steps start data t).1 = .ok value) ∨
      ∃ (v : Visit) (cause : LookupError), steps[v.number]? = some v.step ∧
        (prefixesFrom start steps)[v.number]? = some v.path ∧
        runSteps scope (steps.take v.number) start data t = (.ok v.node, v.table) ∧
        (v.run scope).1 = .error cause := by
  induction steps generalizing start data t with
  | nil => exact .inl ⟨data, rfl⟩
  | cons step rest ih =>
    cases run : runStep scope step (extendPrefix start step.raw) data t with
    | mk outcome left =>
      cases outcome with
      | error cause =>
        exact .inr ⟨⟨0, step, _, data, t⟩, cause, rfl, rfl, rfl, congrArg Prod.fst run⟩
      | ok next =>
        rcases ih (extendPrefix start step.raw) next left with
          ⟨value, given⟩ | ⟨⟨n, failing, path, node, reached⟩, cause, at_, here, passed, failed⟩
        · refine .inl ⟨value, ?_⟩
          rw [runSteps, run]
          exact given
        · refine .inr ⟨⟨n + 1, failing, path, node, reached⟩, cause, at_, here, ?_, failed⟩
          rw [List.take_succ_cons, runSteps, run]
          exact passed

/-! ### The end -/

theorem StopsAt.evaluate_eq (stops : c.StopsAt scope data t v cause) :
    c.evaluate scope data t = (c.onFailure v.step.raw cause, (v.run scope).2) := by
  obtain ⟨⟨at_, here, comes⟩, fails⟩ := stops
  have failed : v.run scope = (.error cause, (v.run scope).2) := Prod.ext fails.fst_run rfl
  rw [evaluate, runSteps_of_error at_ here comes failed]

theorem value_or_stopsAt (c : Chain) (scope : Scope) (data : Json) (t : Table) :
    (∃ value, (runSteps scope c.steps "" data t).1 = .ok value ∧
        (c.evaluate scope data t).1 = .ok (.value value)) ∨
      ∃ v cause, c.StopsAt scope data t v cause := by
  rcases runSteps_cases scope c.steps "" data t with
    ⟨value, given⟩ | ⟨v, cause, at_, here, comes, failed⟩
  · refine .inl ⟨value, given, ?_⟩
    rw [evaluate]
    cases run : runSteps scope c.steps "" data t with
    | mk outcome left =>
      rw [run] at given
      rw [show outcome = .ok value from given]
  · refine .inr ⟨v, cause, ⟨at_, here, comes⟩, ?_⟩
    rw [← failed]
    exact v.yields_run scope

theorem Visits.settled (keeps : ∀ step ∈ c.steps, step.lookup.KeepsSettled) (settled : t.Settled)
    (visits : c.Visits scope data t v) : v.table.Settled := by
  have earlier : ∀ step ∈ c.steps.take v.number, step.lookup.KeepsSettled := fun step member =>
    keeps step (List.mem_of_mem_take member)
  have kept := settled_runSteps earlier settled scope "" data
  rwa [visits.comes] at kept

theorem snd_evaluate (c : Chain) (scope : Scope) (data : Json) (t : Table) :
    (c.evaluate scope data t).2 = (runSteps scope c.steps "" data t).2 := by
  rw [evaluate]
  split
  all_goals
    rename_i run
    rw [run]

theorem stopsAt_memo {rest : List Step} {key : String} (split : c.steps = step :: rest)
    (memo : step.lookup = .memo key) (absent : t.find? step.raw = none)
    (missing : t.find? key = none) (scope : Scope) (data : Json) :
    c.StopsAt scope data t ⟨0, step, step.raw, data, t⟩ (.missingMemo key) := by
  refine ⟨⟨by rw [split]; rfl, by rw [prefixes, split]; rfl, rfl⟩, .inr ⟨absent, ?_⟩⟩
  rw [memo, Lookup.evaluate, Table.fetch, Table.get_of_absent missing]

/-- A missing memo is not stored, and no fail mode settles it: the evaluation fails with it and leaves
the table as the step's lookup left it. Any other failure is in the table under the prefix of its
step, whatever the fail mode makes of it then. So a chain whose first step is a memo of an absent
prefix fails and changes nothing. -/
theorem missingMemo_bypasses_failMode (keeps : ∀ step ∈ c.steps, step.lookup.KeepsSettled)
    (settled : t.Settled) (scope : Scope) (data : Json) :
    (c.evaluate scope data t).2.Settled ∧
      (∀ v key, c.StopsAt scope data t v (.missingMemo key) →
        c.evaluate scope data t =
          (.error (.missingMemo key), (v.step.lookup.evaluate scope v.node v.table).2)) ∧
      (∀ v cause, c.StopsAt scope data t v cause → (∀ key, cause ≠ .missingMemo key) →
        (c.evaluate scope data t).2.find? v.path = some (.error cause) ∧
          (c.evaluate scope data t).1 = c.onFailure v.step.raw cause) ∧
      ((∃ value, (runSteps scope c.steps "" data t).1 = .ok value ∧
          (c.evaluate scope data t).1 = .ok (.value value)) ∨
        ∃ v cause, c.StopsAt scope data t v cause) ∧
      (∀ failMode fallback,
        ({ c with failMode, fallback }.evaluate scope data t).2 = (c.evaluate scope data t).2) ∧
      ∀ step rest key, c.steps = step :: rest → step.lookup = .memo key →
        (step.raw = key ∨ t.find? step.raw = none) → t.find? key = none →
          c.evaluate scope data t = (.error (.missingMemo key), t) := by
  have missed : ∀ v key, c.StopsAt scope data t v (.missingMemo key) →
      c.evaluate scope data t =
        (.error (.missingMemo key), (v.step.lookup.evaluate scope v.node v.table).2) := by
    intro v key stops
    rw [stops.evaluate_eq, stops.fails.run_missingMemo (stops.visits.settled keeps settled)]
    rfl
  refine ⟨settled_evaluate keeps settled scope data, missed, ?_,
    value_or_stopsAt c scope data t, ?_, ?_⟩
  · intro v cause stops present
    rw [stops.evaluate_eq]
    exact ⟨stops.fails.find?_run fun key missing => present key (Except.error.inj missing), rfl⟩
  · intro failMode fallback
    rw [snd_evaluate, snd_evaluate]
  · intro step rest key split memo own missing
    have absent : t.find? step.raw = none := by
      rcases own with same | absent
      · rw [same, missing]
      · exact absent
    rw [missed _ _ (stopsAt_memo split memo absent missing scope data), memo, Lookup.evaluate,
      Table.fetch, Table.get_of_absent missing]

/-- A custom lookup that notes the node in the table and then asks for another prefix. -/
def noting : Lookup := .custom fun _ node t => (t.insert "note" (.ok node)).fetch "ship.port"

theorem keepsSettled_noting : noting.KeepsSettled := by
  intro scope node t settled
  have noted : (t.insert "note" (.ok node)).Settled := settled.insert "note" (by simp)
  exact noted.fetch "ship.port"

/-- A default does not hide that the second step asks for a prefix which nobody has evaluated. -/
theorem missingMemo_bypasses_failMode_noting :
    let c : Chain := ⟨"ship.<noting>", [⟨"ship", .key "ship"⟩, ⟨"<noting>", noting⟩], some .null,
      .default, "harbour"⟩
    let ship := Json.object [("mast", .bool true)]
    let data := Json.object [("ship", ship)]
    let second : Visit := ⟨1, ⟨"<noting>", noting⟩, "ship.<noting>", ship, ⟨[("ship", .ok ship)], 0, 1⟩⟩
    (∀ step ∈ c.steps, step.lookup.KeepsSettled) ∧ Table.empty.Settled ∧
      c.StopsAt ⟨data, data, .null⟩ data .empty second (.missingMemo "ship.port") ∧
      c.evaluate ⟨data, data, .null⟩ data .empty =
        (.error (.missingMemo "ship.port"), ⟨[("ship", .ok ship), ("note", .ok ship)], 0, 2⟩) := by
  intro c ship data second
  have keeps : ∀ step ∈ c.steps, step.lookup.KeepsSettled := by
    intro step member
    rcases List.mem_pair.mp member with rfl | rfl
    · exact Lookup.IgnoresTable.keepsSettled fun _ _ _ => rfl
    · exact keepsSettled_noting
  have stops : c.StopsAt ⟨data, data, .null⟩ data .empty second (.missingMemo "ship.port") :=
    ⟨⟨rfl, rfl, rfl⟩, .inr ⟨rfl, rfl⟩⟩
  exact ⟨keeps, Table.settled_empty, stops,
    (missingMemo_bypasses_failMode keeps Table.settled_empty _ data).2.1 second _ stops⟩

end Chain

end Reshape
