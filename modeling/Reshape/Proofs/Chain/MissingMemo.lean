import Reshape.Proofs.Chain.Evaluation

/-!
Missing memos. A chain whose lookups do not store that a memo is missing does not store it either,
and chains of built-in lookups never find one missing.
-/

namespace Reshape

/-- The table does not hold that a memo is missing. -/
def Table.Settled (t : Table) : Prop :=
  ∀ path key, t.find? path ≠ some (.error (.missingMemo key))

theorem Table.settled_empty : Table.empty.Settled := fun _ _ found => nomatch found

theorem Table.Settled.insert {t : Table} (settled : t.Settled) (path : String)
    {outcome : Except LookupError Json} (present : ∀ key, outcome ≠ .error (.missingMemo key)) :
    (t.insert path outcome).Settled := by
  intro other key found
  rw [find?_insert] at found
  split at found
  · exact present key (Option.some.inj found)
  · exact settled other key found

theorem Table.Settled.fetch {t : Table} (settled : t.Settled) (path : String) :
    (t.fetch path).2.Settled := by
  cases found : t.find? path with
  | none =>
    rw [Table.fetch, Table.get_of_absent found]
    exact settled
  | some outcome =>
    rw [Table.fetch, Table.get_of_find? found]
    exact fun other => settled other

/-- The lookup does not store that a memo is missing. -/
def Lookup.KeepsSettled (l : Lookup) : Prop :=
  ∀ scope node t, t.Settled → (l.evaluate scope node t).2.Settled

theorem Lookup.IgnoresTable.keepsSettled {l : Lookup} (ignores : l.IgnoresTable) :
    l.KeepsSettled := by
  intro scope node t settled
  rwa [ignores]

namespace Chain

variable {t : Table}

/-! ### Tables stay settled -/

theorem settled_runStep {step : Step} (keeps : step.lookup.KeepsSettled) (settled : t.Settled)
    (scope : Scope) (path : String) (node : Json) :
    (runStep scope step path node t).2.Settled := by
  have left := keeps scope node t settled
  rcases runStep_cases scope step path node t with
    ⟨_, -, hit⟩ | ⟨-, key, t', given, missing⟩ | ⟨-, outcome, t', given, present, miss⟩
  · rw [hit]
    exact fun other => settled other
  · rw [given] at left
    rwa [missing]
  · rw [given] at left
    rw [miss]
    exact left.insert path present

theorem settled_runSteps {steps : List Step} (keeps : ∀ step ∈ steps, step.lookup.KeepsSettled)
    (settled : t.Settled) (scope : Scope) (path : String) (node : Json) :
    (runSteps scope steps path node t).2.Settled := by
  induction steps generalizing path node t with
  | nil => exact settled
  | cons step rest ih =>
    rw [List.forall_mem_cons] at keeps
    have first := settled_runStep keeps.1 settled scope (extendPrefix path step.raw) node
    rw [runSteps]
    split
    · rename_i next t' run
      rw [run] at first
      exact ih keeps.2 first _ next
    · rename_i cause t' run
      rwa [run] at first

theorem settled_evaluate {c : Chain} (keeps : ∀ step ∈ c.steps, step.lookup.KeepsSettled)
    (settled : t.Settled) (scope : Scope) (data : Json) :
    (c.evaluate scope data t).2.Settled := by
  have left := settled_runSteps keeps settled scope "" data
  rw [evaluate]
  split
  all_goals
    rename_i run
    rwa [run] at left

/-! ### Built-in lookups -/

theorem runStep_settled {step : Step} (builtin : step.lookup.IsBuiltin) (settled : t.Settled)
    (scope : Scope) (path : String) (node : Json) :
    (∀ key, (runStep scope step path node t).1 ≠ .error (.missingMemo key)) ∧
      (runStep scope step path node t).2.Settled := by
  refine ⟨fun key => ?_,
    settled_runStep builtin.ignoresTable.keepsSettled settled scope path node⟩
  rcases runStep_cases scope step path node t with
    ⟨outcome, found, hit⟩ | ⟨-, key', t', given, -⟩ | ⟨-, outcome, t', -, other, miss⟩
  · rw [hit]
    exact fun missing => settled path key (found.trans (congrArg some missing))
  · exact absurd (congrArg Prod.fst given) (builtin.ne_missingMemo scope node t key')
  · rw [miss]
    exact other key

theorem runSteps_settled {steps : List Step} (builtin : ∀ step ∈ steps, step.lookup.IsBuiltin)
    (settled : t.Settled) (scope : Scope) (path : String) (node : Json) :
    (∀ text key, (runSteps scope steps path node t).1 ≠ .error (text, .missingMemo key)) ∧
      (runSteps scope steps path node t).2.Settled := by
  induction steps generalizing path node t with
  | nil => exact ⟨by simp [runSteps], settled⟩
  | cons step rest ih =>
    rw [List.forall_mem_cons] at builtin
    have first := runStep_settled builtin.1 settled scope
      (extendPrefix path step.raw) node
    rw [runSteps]
    split
    · rename_i node' t' run
      rw [run] at first
      exact ih builtin.2 first.2 _ node'
    · rename_i cause t' run
      rw [run] at first
      refine ⟨fun text key missing => first.1 key ?_, first.2⟩
      rw [(Prod.mk.inj (Except.error.inj missing)).2]

theorem onFailure_ne_missingMemo (c : Chain) (step key : String) {cause : LookupError}
    (other : ∀ key, cause ≠ .missingMemo key) :
    c.onFailure step cause ≠ .error (.missingMemo key) := by
  unfold onFailure
  split
  · exact absurd rfl (other _)
  all_goals simp

theorem evaluate_settled {c : Chain} (builtin : ∀ step ∈ c.steps, step.lookup.IsBuiltin)
    (settled : t.Settled) (scope : Scope) (data : Json) :
    (∀ key, (c.evaluate scope data t).1 ≠ .error (.missingMemo key)) ∧
      (c.evaluate scope data t).2.Settled := by
  obtain ⟨present, left⟩ := runSteps_settled builtin settled scope "" data
  rw [evaluate]
  split
  · rename_i run
    rw [run] at left
    exact ⟨by simp, left⟩
  · rename_i step cause t' run
    rw [run] at present left
    exact ⟨fun key => onFailure_ne_missingMemo c step key fun key missing =>
      present step key (by rw [missing]), left⟩

end Chain

end Reshape
