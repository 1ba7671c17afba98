import Reshape.Proofs.Chain.Prefixes
import Reshape.Proofs.Lookup.Effects

/-!
Evaluation of chains on a table: what one step can do to the table, and what a whole chain leaves
there. A chain whose first step is known gives the same when it takes that step from the table.
-/

namespace Reshape.Chain

/-! ### One step -/

/-- A step is replayed, finds a memo missing, or stores what its lookup gives. -/
theorem runStep_cases (scope : Scope) (step : Step) (path : String) (node : Json) (t : Table) :
    (∃ outcome, t.find? path = some outcome ∧
      runStep scope step path node t = (outcome, { t with reads := t.reads + 1 })) ∨
    (t.find? path = none ∧ ∃ key t', step.lookup.evaluate scope node t =
      (.error (.missingMemo key), t') ∧
      runStep scope step path node t = (.error (.missingMemo key), t')) ∨
    (t.find? path = none ∧ ∃ outcome t', step.lookup.evaluate scope node t = (outcome, t') ∧
      (∀ key, outcome ≠ .error (.missingMemo key)) ∧
      runStep scope step path node t = (outcome, t'.insert path outcome)) := by
  cases found : t.find? path with
  | some outcome =>
    refine .inl ⟨outcome, rfl, ?_⟩
    rw [runStep, Table.get_of_find? found]
  | none =>
    refine .inr ?_
    rw [runStep, Table.get_of_absent found]
    dsimp only
    split
    · rename_i key t' given
      exact .inl ⟨rfl, key, t', given, rfl⟩
    · rename_i outcome t' other given
      exact .inr ⟨rfl, outcome, t', given, other, rfl⟩

theorem runStep_of_find? {t : Table} {path : String} {outcome : Except LookupError Json}
    (found : t.find? path = some outcome) (scope : Scope) (step : Step) (node : Json) :
    runStep scope step path node t = (outcome, { t with reads := t.reads + 1 }) := by
  rw [runStep, Table.get_of_find? found]

theorem find?_runStep_self {scope : Scope} {step : Step} {path : String} {node : Json}
    {t t' : Table} {outcome : Except LookupError Json}
    (run : runStep scope step path node t = (outcome, t'))
    (present : ∀ key, outcome ≠ .error (.missingMemo key)) : t'.find? path = some outcome := by
  rcases runStep_cases scope step path node t with
    ⟨stored, found, hit⟩ | ⟨-, key, left, -, missing⟩ | ⟨-, given, left, -, -, miss⟩
  · obtain ⟨rfl, rfl⟩ := Prod.mk.inj (run.symm.trans hit)
    exact found
  · obtain ⟨rfl, rfl⟩ := Prod.mk.inj (run.symm.trans missing)
    exact absurd rfl (present key)
  · obtain ⟨rfl, rfl⟩ := Prod.mk.inj (run.symm.trans miss)
    exact Table.find?_insert_self _ _ _

/-! ### Entries stay -/

theorem contains_runStep {step : Step} {t : Table} {other : String}
    (keeps : step.lookup.KeepsEntries) (scope : Scope) (path : String) (node : Json) (held : t.contains other) :
    (runStep scope step path node t).2.contains other := by
  rcases runStep_cases scope step path node t with
    ⟨_, _, hit⟩ | ⟨-, key, t', given, missing⟩ | ⟨-, outcome, t', given, -, miss⟩
  · rwa [hit]
  · have kept := keeps scope node t other held
    rw [given] at kept
    rwa [missing]
  · have kept := keeps scope node t other held
    rw [given] at kept
    rw [miss]
    exact Table.contains_insert kept path outcome

theorem contains_runSteps {steps : List Step} {t : Table} {other : String}
    (keeps : ∀ step ∈ steps, step.lookup.KeepsEntries) (scope : Scope) (path : String) (node : Json)
    (held : t.contains other) : (runSteps scope steps path node t).2.contains other := by
  induction steps generalizing path node t with
  | nil => exact held
  | cons step rest ih =>
    rw [List.forall_mem_cons] at keeps
    have kept := contains_runStep keeps.1 scope (extendPrefix path step.raw) node held
    rw [runSteps]
    split
    · rename_i next t' run
      rw [run] at kept
      exact ih keeps.2 _ next kept
    · rename_i cause t' run
      rwa [run] at kept

theorem contains_evaluate {c : Chain} {t : Table} {other : String}
    (keeps : ∀ step ∈ c.steps, step.lookup.KeepsEntries) (scope : Scope) (data : Json)
    (held : t.contains other) : (c.evaluate scope data t).2.contains other := by
  have kept := contains_runSteps keeps scope "" data held
  rw [evaluate]
  split
  all_goals
    rename_i run
    rwa [run] at kept

theorem find?_runStep {step : Step} {t : Table} {other : String}
    {stored : Except LookupError Json} (ignores : step.lookup.IgnoresTable) (scope : Scope)
    (path : String) (node : Json) (held : t.find? other = some stored) :
    (runStep scope step path node t).2.find? other = some stored := by
  have given := ignores scope node t
  rcases runStep_cases scope step path node t with
    ⟨_, _, hit⟩ | ⟨-, key, t', found, missing⟩ | ⟨absent, outcome, t', found, -, miss⟩
  · rwa [hit]
  · obtain ⟨-, rfl⟩ := Prod.mk.inj (given.symm.trans found)
    rwa [missing]
  · obtain ⟨-, rfl⟩ := Prod.mk.inj (given.symm.trans found)
    rw [miss, Table.find?_insert]
    split
    · rename_i same
      rw [same, absent] at held
      cases held
    · exact held

theorem find?_runSteps {steps : List Step} {t : Table} {other : String}
    {stored : Except LookupError Json} (ignores : ∀ step ∈ steps, step.lookup.IgnoresTable)
    (scope : Scope) (path : String) (node : Json) (held : t.find? other = some stored) :
    (runSteps scope steps path node t).2.find? other = some stored := by
  induction steps generalizing path node t with
  | nil => exact held
  | cons step rest ih =>
    rw [List.forall_mem_cons] at ignores
    have kept := find?_runStep ignores.1 scope (extendPrefix path step.raw) node held
    rw [runSteps]
    split
    · rename_i next t' run
      rw [run] at kept
      exact ih ignores.2 _ next kept
    · rename_i cause t' run
      rwa [run] at kept

theorem find?_evaluate {c : Chain} {t : Table} {other : String}
    {stored : Except LookupError Json} (ignores : ∀ step ∈ c.steps, step.lookup.IgnoresTable)
    (scope : Scope) (data : Json) (held : t.find? other = some stored) :
    (c.evaluate scope data t).2.find? other = some stored := by
  have kept := find?_runSteps ignores scope "" data held
  rw [evaluate]
  split
  all_goals
    rename_i run
    rwa [run] at kept

/-! ### The first step -/

theorem onFailure_missingMemo (c : Chain) (step key : String) :
    c.onFailure step (.missingMemo key) = .error (.missingMemo key) := rfl

/-- After a chain that gave a value, or was skipped, its first step is known. -/
theorem contains_upTo_one {c : Chain} {scope : Scope} {data : Json} {t t' : Table}
    {outcome : Outcome} (wellSpelled : c.WellSpelled)
    (keeps : ∀ step ∈ c.steps, step.lookup.KeepsEntries)
    (run : c.evaluate scope data t = (.ok outcome, t')) : t'.contains (c.upTo 1) := by
  obtain ⟨step, rest, split, front⟩ := exists_first wellSpelled
  rw [split, List.forall_mem_cons] at keeps
  rw [evaluate, split, runSteps, front] at run
  cases first : runStep scope step (c.upTo 1) data t with
  | mk given left =>
    rw [first] at run
    cases given with
    | ok node =>
      have known := Table.contains_iff.mpr ⟨_, find?_runStep_self first (by simp)⟩
      have kept := contains_runSteps keeps.2 scope (c.upTo 1) node known
      dsimp only at run
      split at run
      all_goals
        rename_i later
        rw [later] at kept
        obtain ⟨-, rfl⟩ := Prod.mk.inj run
        exact kept
    | error cause =>
      obtain ⟨given, rfl⟩ := Prod.mk.inj run
      refine Table.contains_iff.mpr ⟨_, find?_runStep_self first fun key missing => ?_⟩
      obtain rfl := Except.error.inj missing
      rw [onFailure_missingMemo] at given
      cases given

theorem extendPrefix_empty (raw : String) : extendPrefix "" raw = raw := rfl

theorem reuse_zero {c : Chain} {step : Step} {rest : List Step} (split : c.steps = step :: rest) :
    c.reuse 0 = { c with steps := .memo step.raw :: rest } := by
  rw [reuse, prefixes, split, prefixesFrom]
  rfl

theorem texts_reuse_zero {c : Chain} (wellSpelled : c.WellSpelled) :
    (c.reuse 0).steps.map Step.raw = c.steps.map Step.raw := by
  obtain ⟨step, rest, split, -⟩ := exists_first wellSpelled
  rw [reuse_zero split, split]
  rfl

/-- Steps of which the first is known lead to the same when it is taken from the table. -/
theorem runSteps_reuse_zero {c : Chain} {t : Table} (wellSpelled : c.WellSpelled)
    (known : t.contains (c.upTo 1)) (scope : Scope) (data : Json) :
    runSteps scope (c.reuse 0).steps "" data t = runSteps scope c.steps "" data t := by
  obtain ⟨step, rest, split, front⟩ := exists_first wellSpelled
  obtain ⟨outcome, found⟩ := Table.contains_iff.mp known
  rw [← front, extendPrefix_empty] at found
  rw [reuse_zero split, split, runSteps, runSteps]
  simp only [Step.memo, extendPrefix_empty, runStep_of_find? found]

/-- A chain whose first step is known gives the same when it takes that step from the table. -/
theorem evaluate_reuse_zero {c : Chain} {t : Table} (wellSpelled : c.WellSpelled)
    (known : t.contains (c.upTo 1)) (scope : Scope) (data : Json) :
    (c.reuse 0).evaluate scope data t = c.evaluate scope data t := by
  have same := runSteps_reuse_zero wellSpelled known scope data
  obtain ⟨step, rest, split, -⟩ := exists_first wellSpelled
  rw [reuse_zero split] at same ⊢
  rw [evaluate, evaluate, same]
  rfl

end Reshape.Chain
