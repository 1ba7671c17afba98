import Reshape.Proofs.Chain.Evaluation

/-!
Visits: the prefixes that a chain comes to when it runs. A table that is empty at first counts every
visit as one read or one write and holds every visited prefix once.
-/

namespace Reshape

/-- The table has seen these visits: the first visit to a prefix was written, all others were read. -/
structure Table.Accounts (t : Table) (visits : List String) : Prop where
  distinct : (t.entries.map Prod.fst).Nodup
  known : ∀ path, path ∈ t.entries.map Prod.fst ↔ path ∈ visits
  writes : t.writes = t.entries.length
  counted : t.reads + t.writes = visits.length

namespace Table

variable {t : Table} {visits : List String} {path : String}

theorem find?_eq_none_iff : t.find? path = none ↔ path ∉ t.entries.map Prod.fst := by
  rw [find?, List.lookup_eq_none_iff, List.mem_map]
  constructor
  · rintro absent ⟨entry, member, rfl⟩
    simpa using absent entry member
  · intro absent entry member
    simpa using fun same => absent ⟨entry, member, same.symm⟩

theorem accounts_empty : Table.empty.Accounts [] where
  distinct := List.nodup_nil
  known _ := .rfl
  writes := rfl
  counted := rfl

theorem Accounts.read (accounts : t.Accounts visits) {outcome : Except LookupError Json}
    (found : t.find? path = some outcome) :
    ({ t with reads := t.reads + 1 } : Table).Accounts (visits ++ [path]) where
  distinct := accounts.distinct
  known other := by
    have held : path ∈ t.entries.map Prod.fst := by
      by_contra absent
      rw [find?_eq_none_iff.mpr absent] at found
      cases found
    have visited := (accounts.known path).mp held
    rw [List.mem_append, List.mem_singleton]
    constructor
    · intro member
      exact .inl ((accounts.known other).mp member)
    · rintro (member | rfl)
      · exact (accounts.known other).mpr member
      · exact held
  writes := accounts.writes
  counted := by
    have counted := accounts.counted
    rw [List.length_append, List.length_singleton]
    dsimp only
    omega

theorem Accounts.write (accounts : t.Accounts visits) (absent : t.find? path = none)
    (outcome : Except LookupError Json) : (t.insert path outcome).Accounts (visits ++ [path]) := by
  rw [find?_eq_none_iff] at absent
  have keys : (t.insert path outcome).entries.map Prod.fst = t.entries.map Prod.fst ++ [path] := by
    rw [insert, Fields.keys_insert, if_neg absent]
  have size : (t.insert path outcome).entries.length = t.entries.length + 1 := by
    simpa using congrArg List.length keys
  constructor
  case distinct =>
    rw [keys, List.nodup_append_comm]
    exact List.nodup_cons.mpr ⟨absent, accounts.distinct⟩
  case known =>
    intro other
    rw [keys, List.mem_append, List.mem_append, accounts.known]
  case writes =>
    rw [size, ← accounts.writes]
    rfl
  case counted =>
    have counted := accounts.counted
    have writes : (t.insert path outcome).writes = t.writes + 1 := rfl
    have reads : (t.insert path outcome).reads = t.reads := rfl
    rw [writes, reads, List.length_append, List.length_singleton]
    omega

end Table

namespace Chain

/-! ### Visits -/

/-- The prefixes that steps come to: all of them, or those up to the step that fails. -/
def visitsFrom (scope : Scope) : List Step → String → Json → Table → List String
  | [], _, _, _ => []
  | step :: rest, path, node, t =>
    let path := extendPrefix path step.raw
    path :: match runStep scope step path node t with
      | (.ok node, t) => visitsFrom scope rest path node t
      | (.error _, _) => []

def visits (c : Chain) (scope : Scope) (data : Json) (t : Table) : List String :=
  visitsFrom scope c.steps "" data t

/-- Each step ignores the table, or takes its own prefix from there. -/
def Regular : String → List Step → Prop
  | _, [] => True
  | path, step :: rest =>
    let path := extendPrefix path step.raw
    (step.lookup.IgnoresTable ∨ step.lookup = .memo path) ∧ Regular path rest

theorem regular_of_ignoresTable {steps : List Step}
    (ignores : ∀ step ∈ steps, step.lookup.IgnoresTable) (path : String) : Regular path steps := by
  induction steps generalizing path with
  | nil => trivial
  | cons step rest ih =>
    rw [List.forall_mem_cons] at ignores
    exact ⟨.inl ignores.1, ih ignores.2 _⟩

/-- Without a failure all prefixes are visited, else those up to the step that fails. -/
theorem visitsFrom_cases (scope : Scope) (steps : List Step) (path : String) (node : Json)
    (t : Table) :
    (∃ v, (runSteps scope steps path node t).1 = .ok v ∧
      visitsFrom scope steps path node t = prefixesFrom path steps) ∨
    ∃ before step rest v cause, steps = before ++ step :: rest ∧
      (runSteps scope before path node t).1 = .ok v ∧
      (runSteps scope steps path node t).1 = .error (step.raw, cause) ∧
      visitsFrom scope steps path node t = prefixesFrom path (before ++ [step]) := by
  induction steps generalizing path node t with
  | nil => exact .inl ⟨node, rfl, rfl⟩
  | cons step rest ih =>
    rw [visitsFrom, prefixesFrom]
    cases run : runStep scope step (extendPrefix path step.raw) node t with
    | mk outcome left =>
      cases outcome with
      | error cause =>
        refine .inr ⟨[], step, rest, node, cause, rfl, rfl, ?_, rfl⟩
        simp only [runSteps, run]
      | ok next =>
        have later := ih (extendPrefix path step.raw) next left
        rcases later with ⟨v, given, all⟩ | ⟨before, failing, after, v, cause, rfl, passed, failed, upTo⟩
        · refine .inl ⟨v, ?_, ?_⟩
          · simpa only [runSteps, run] using given
          · simp only [all]
        · refine .inr ⟨step :: before, failing, after, v, cause, rfl, ?_, ?_, ?_⟩
          · simpa only [runSteps, run] using passed
          · simpa only [runSteps, run] using failed
          · simp only [upTo, List.cons_append, prefixesFrom]

/-! ### Visits on a table -/

variable (scope : Scope) {visited : List String} {t : Table}

theorem accounts_runStep {step : Step} {path : String} (node : Json) (accounts : t.Accounts visited)
    (regular : step.lookup.IgnoresTable ∨ step.lookup = .memo path)
    (present : ∀ key, (runStep scope step path node t).1 ≠ .error (.missingMemo key)) :
    (runStep scope step path node t).2.Accounts (visited ++ [path]) := by
  rcases runStep_cases scope step path node t with
    ⟨outcome, found, hit⟩ | ⟨-, key, t', -, missing⟩ | ⟨absent, outcome, t', given, other, miss⟩
  · rw [hit]
    exact accounts.read found
  · rw [missing] at present
    exact absurd rfl (present key)
  · have left : t' = t := by
      rcases regular with ignores | memo
      · rw [ignores] at given
        exact (Prod.mk.inj given).2.symm
      · -- A memo finds nothing where its own prefix is absent, and this is not stored.
        rw [memo, Lookup.evaluate, Table.fetch, Table.get_of_absent absent] at given
        exact absurd (Prod.mk.inj given).1.symm (other path)
    rw [miss, left]
    exact accounts.write absent outcome

theorem accounts_runSteps {steps : List Step} {path : String} (node : Json)
    (accounts : t.Accounts visited) (regular : Regular path steps)
    (present : ∀ text key, (runSteps scope steps path node t).1 ≠ .error (text, .missingMemo key)) :
    (runSteps scope steps path node t).2.Accounts
      (visited ++ visitsFrom scope steps path node t) := by
  induction steps generalizing path node t visited with
  | nil =>
    rw [visitsFrom, List.append_nil]
    exact accounts
  | cons step rest ih =>
    obtain ⟨first, later⟩ := regular
    rw [runSteps] at present ⊢
    rw [visitsFrom]
    have one := accounts_runStep scope node accounts first
    cases run : runStep scope step (extendPrefix path step.raw) node t with
    | mk outcome left =>
      simp only [run] at present one ⊢
      cases outcome with
      | error cause =>
        refine one fun key missing => present step.raw key ?_
        rw [Except.error.inj missing]
      | ok next =>
        rw [List.append_cons]
        exact ih next (one (by simp)) later present

theorem accounts_evaluate {c : Chain} {data : Json} {outcome : Outcome}
    (accounts : t.Accounts visited) (regular : Regular "" c.steps)
    (passed : (c.evaluate scope data t).1 = .ok outcome) :
    (c.evaluate scope data t).2.Accounts (visited ++ c.visits scope data t) := by
  have all := accounts_runSteps scope data accounts regular
  rw [evaluate] at passed ⊢
  rw [visits]
  cases run : runSteps scope c.steps "" data t with
  | mk given left =>
    simp only [run] at all passed ⊢
    cases given with
    | ok v => exact all (by simp)
    | error failure =>
      refine all fun text key missing => ?_
      obtain rfl := Except.error.inj missing
      cases passed

end Chain

end Reshape
