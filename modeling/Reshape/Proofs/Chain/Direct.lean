import Reshape.Proofs.Chain.Compilation
import Reshape.Proofs.Chain.Evaluation

/-!
Evaluation of chains without a table. It agrees with evaluation on any table whose entries are
outcomes of the same prefixes, as long as a prefix stands for the same steps in all chains.
-/

namespace Reshape

/-- What the lookup gives when there is no table to look at. -/
def Lookup.direct (l : Lookup) (scope : Scope) (node : Json) : Except LookupError Json :=
  (l.evaluate scope node .empty).1

namespace Chain

/-- Folds the lookups over the data; a failure comes with the text of its step. -/
def directSteps (scope : Scope) : List Step → Json → Except (String × LookupError) Json
  | [], node => .ok node
  | step :: rest, node =>
    match step.lookup.direct scope node with
    | .ok node => directSteps scope rest node
    | .error cause => .error (step.raw, cause)

/-- Evaluates the chain from scratch. -/
def direct (c : Chain) (scope : Scope) (data : Json) : Except EvalError Outcome :=
  match directSteps scope c.steps data with
  | .ok v => .ok (.value v)
  | .error (step, cause) => c.onFailure step cause

theorem directSteps_append (scope : Scope) (before rest : List Step) (data : Json) :
    directSteps scope (before ++ rest) data =
      directSteps scope before data >>= directSteps scope rest := by
  induction before generalizing data with
  | nil => rfl
  | cons step before ih =>
    rw [List.cons_append, directSteps, directSteps]
    cases step.lookup.direct scope data with
    | ok node => exact ih node
    | error cause => rfl

/-- The outcome of a whole prefix, as the table has it. -/
def outcomeOf (scope : Scope) (steps : List Step) (data : Json) : Except LookupError Json :=
  (directSteps scope steps data).mapError Prod.snd

theorem outcomeOf_concat {scope : Scope} {before : List Step} {data node : Json}
    (reached : directSteps scope before data = .ok node) (step : Step) :
    outcomeOf scope (before ++ [step]) data = step.lookup.direct scope node := by
  rw [outcomeOf, directSteps_append, reached]
  simp only [bind, Except.bind, directSteps]
  cases step.lookup.direct scope node <;> rfl

/-! ### Tables of prefixes that stand for one thing -/

variable {chains : List Chain} {scope : Scope} {data : Json}

/-- A prefix stands for the same steps in all chains. -/
def Coherent (chains : List Chain) : Prop :=
  ∀ c ∈ chains, ∀ d ∈ chains, ∀ i < c.steps.length, ∀ j < d.steps.length,
    c.upTo (i + 1) = d.upTo (j + 1) → c.steps.take (i + 1) = d.steps.take (j + 1)

/-- What the table holds under a prefix of one of the chains is the outcome of that prefix. -/
def Faithful (chains : List Chain) (scope : Scope) (data : Json) (t : Table) : Prop :=
  ∀ c ∈ chains, ∀ i < c.steps.length, ∀ outcome, t.find? (c.upTo (i + 1)) = some outcome →
    outcome = outcomeOf scope (c.steps.take (i + 1)) data

theorem faithful_empty (chains : List Chain) (scope : Scope) (data : Json) :
    Faithful chains scope data .empty := fun _ _ _ _ _ found => nomatch found

theorem Faithful.insert {t : Table} (coherent : Coherent chains)
    (faithful : Faithful chains scope data t) {c : Chain} (member : c ∈ chains) {i : Nat}
    (bound : i < c.steps.length) :
    Faithful chains scope data
      (t.insert (c.upTo (i + 1)) (outcomeOf scope (c.steps.take (i + 1)) data)) := by
  intro d member' j bound' outcome found
  rw [Table.find?_insert] at found
  split at found
  · rename_i same
    rw [coherent d member' c member j bound' i bound same]
    exact (Option.some.inj found).symm
  · exact faithful d member' j bound' outcome found

theorem take_concat {c : Chain} {before rest : List Step} {step : Step}
    (split : c.steps = before ++ step :: rest) :
    c.steps.take (before.length + 1) = before ++ [step] := by
  rw [split, List.append_cons, List.take_left' (by simp)]

theorem Faithful.runStep {t : Table} (coherent : Coherent chains)
    (faithful : Faithful chains scope data t) {c : Chain} (member : c ∈ chains)
    {before rest : List Step} {step : Step} (split : c.steps = before ++ step :: rest)
    (ignores : step.lookup.IgnoresTable) {node : Json}
    (reached : directSteps scope before data = .ok node) :
    (runStep scope step (c.upTo (before.length + 1)) node t).1 = step.lookup.direct scope node ∧
      Faithful chains scope data
        (Chain.runStep scope step (c.upTo (before.length + 1)) node t).2 := by
  have own := outcomeOf_concat reached step
  rw [← take_concat split] at own
  have given := ignores scope node t
  have bound : before.length < c.steps.length := by simp [split]
  -- Replayed, not stored because a memo is missing, or stored: each leaves only right entries.
  rcases runStep_cases scope step (c.upTo (before.length + 1)) node t with
    ⟨outcome, found, hit⟩ | ⟨-, key, t', found, missing⟩ | ⟨-, outcome, t', found, -, miss⟩
  · rw [hit]
    refine ⟨?_, fun d member' j bound' => faithful d member' j bound'⟩
    rw [← own]
    exact faithful c member _ bound outcome found
  · obtain ⟨outcome, rfl⟩ := Prod.mk.inj (given.symm.trans found)
    rw [missing]
    exact ⟨outcome.symm, faithful⟩
  · obtain ⟨rfl, rfl⟩ := Prod.mk.inj (given.symm.trans found)
    rw [miss]
    refine ⟨rfl, ?_⟩
    have stored := faithful.insert coherent member bound
    rwa [own] at stored

theorem Faithful.runSteps {t : Table} (coherent : Coherent chains)
    (faithful : Faithful chains scope data t) {c : Chain} (member : c ∈ chains)
    (wellSpelled : c.WellSpelled) (before : List Step) {rest : List Step}
    (split : c.steps = before ++ rest) (ignores : ∀ step ∈ rest, step.lookup.IgnoresTable) {node : Json}
    (reached : directSteps scope before data = .ok node) :
    (runSteps scope rest (c.upTo before.length) node t).1 = directSteps scope rest node ∧
      Faithful chains scope data (Chain.runSteps scope rest (c.upTo before.length) node t).2 := by
  -- Induction on the steps that are left; `before` has led from the data to the node.
  induction rest generalizing before node t with
  | nil => exact ⟨rfl, faithful⟩
  | cons step rest ih =>
    rw [List.forall_mem_cons] at ignores
    obtain ⟨same, kept⟩ := faithful.runStep coherent member split ignores.1 reached
    rw [Chain.runSteps, extendPrefix_upTo wellSpelled split, directSteps, ← same]
    have next : directSteps scope (before ++ [step]) data = _ := directSteps_append _ _ _ _
    rw [reached] at next
    cases run : Chain.runStep scope step (c.upTo (before.length + 1)) node t with
    | mk outcome t' =>
      rw [run] at same kept
      cases outcome with
      | error cause => exact ⟨rfl, kept⟩
      | ok node' =>
        have later := ih kept (before ++ [step])
          (by simpa using split) ignores.2 (by
            rw [next]
            simp only [bind, Except.bind, directSteps]
            rw [← same])
        rwa [List.length_append] at later

/-- On a faithful table a chain gives what it gives from scratch, and the table stays faithful. -/
theorem Faithful.evaluate {t : Table} (coherent : Coherent chains)
    (faithful : Faithful chains scope data t) {c : Chain} (member : c ∈ chains)
    (wellSpelled : c.WellSpelled) (ignores : ∀ step ∈ c.steps, step.lookup.IgnoresTable) :
    (c.evaluate scope data t).1 = c.direct scope data ∧
      Faithful chains scope data (c.evaluate scope data t).2 := by
  obtain ⟨same, kept⟩ := faithful.runSteps coherent member wellSpelled [] rfl ignores rfl
  rw [List.length_nil, upTo_zero] at same kept
  rw [Chain.evaluate, direct, ← same]
  cases run : Chain.runSteps scope c.steps "" data t with
  | mk outcome t' =>
    rw [run] at kept
    cases outcome <;> exact ⟨rfl, kept⟩

/-! ### Where chains are coherent -/

theorem coherent_of_compiledWith {r : Registry} (uniform : ∀ c ∈ chains, c.CompiledWith r) :
    Coherent chains :=
  fun c member d member' _ _ _ _ => (uniform c member).take_steps_eq (uniform d member')

theorem coherent_singleton {c : Chain} (wellSpelled : c.WellSpelled) : Coherent [c] := by
  intro d member d' member' i bound j bound' same
  obtain rfl := List.mem_singleton.mp member
  obtain rfl := List.mem_singleton.mp member'
  rw [(upTo_eq_iff wellSpelled wellSpelled bound bound' same).1]

theorem evaluateAlone_eq_direct {c : Chain} (wellSpelled : c.WellSpelled)
    (ignores : ∀ step ∈ c.steps, step.lookup.IgnoresTable) (scope : Scope) (data : Json) :
    c.evaluateAlone scope data = c.direct scope data :=
  ((faithful_empty [c] scope data).evaluate (coherent_singleton wellSpelled)
    (List.mem_singleton_self c) wellSpelled ignores).1

end Chain

end Reshape
