import Reshape.Proofs.Chain.Direct

/-!
Composition of chains. Two paths with a dot between them read as the steps of the first and those of
the second, and their chain gives what the second one gives on what the first one has given.
-/

namespace Reshape

namespace Path

theorem join_append {steps steps' : List Step} (nonempty : steps ≠ []) (nonempty' : steps' ≠ []) :
    join (steps ++ steps') = join steps ++ "." ++ join steps' := by
  have some : steps.map Step.raw ≠ [] := by simpa using nonempty
  have some' : steps'.map Step.raw ≠ [] := by simpa using nonempty'
  rw [join, List.map_append, String.intercalate_append_of_ne_nil some some']
  rfl

theorem read_append {source source' : String} {steps steps' : List Step}
    (first : read source = .ok steps) (second : read source' = .ok steps') :
    read (source ++ "." ++ source') = .ok (steps ++ steps') := by
  obtain ⟨nonempty, rfl, wellFormed⟩ := read_eq_ok_iff.mp first
  obtain ⟨nonempty', rfl, wellFormed'⟩ := read_eq_ok_iff.mp second
  rw [read_eq_ok_iff, join_append nonempty nonempty']
  exact ⟨by simp [nonempty], rfl, List.forall_mem_append.mpr ⟨wellFormed, wellFormed'⟩⟩

end Path

/-- The lookup never reports a missing memo. -/
def Lookup.MissesNoMemo (l : Lookup) : Prop :=
  ∀ scope node t key, (l.evaluate scope node t).1 ≠ .error (.missingMemo key)

theorem Lookup.IsBuiltin.missesNoMemo {l : Lookup} (builtin : l.IsBuiltin) : l.MissesNoMemo :=
  builtin.ne_missingMemo

namespace Chain

variable {c d whole : Chain} {scope : Scope} {data : Json}

theorem compile_append {source source' : String} {o : Options} (first : compile source o = .ok c)
    (second : compile source' o = .ok d) :
    compile (source ++ "." ++ source') o =
      .ok ⟨source ++ "." ++ source', c.steps ++ d.steps, o.fallback, o.failMode, o.registry.name⟩ := by
  obtain ⟨path, steps, read, made, rfl⟩ := compile_eq_ok_iff.mp first
  obtain ⟨path', steps', read', made', rfl⟩ := compile_eq_ok_iff.mp second
  refine compile_eq_ok_iff.mpr ⟨path ++ path', steps ++ steps', Path.read_append read read', ?_, rfl⟩
  rw [List.mapM_append, made, made']
  rfl

/-! ### Failures -/

theorem directSteps_ne_missingMemo {steps : List Step}
    (present : ∀ step ∈ steps, step.lookup.MissesNoMemo) (scope : Scope) (node : Json)
    (text key : String) : directSteps scope steps node ≠ .error (text, .missingMemo key) := by
  induction steps generalizing node with
  | nil => nofun
  | cons step rest ih =>
    rw [List.forall_mem_cons] at present
    intro h
    rw [directSteps] at h
    split at h
    · exact ih present.2 _ h
    · rename_i cause given
      obtain ⟨-, rfl⟩ := Prod.mk.inj (Except.error.inj h)
      exact present.1 scope node .empty key given

/-- Without a default, chains of one fail mode all pass a failure on, or are all skipped. -/
theorem onFailure_of_ne_default {mode : FailMode} (noDefault : mode ≠ .default) (step : String)
    {cause : LookupError} (present : ∀ key, cause ≠ .missingMemo key) :
    (∀ b : Chain, b.failMode = mode → b.onFailure step cause = .error (.lookup b.source step cause)) ∨
      ∀ b : Chain, b.failMode = mode → b.onFailure step cause = .ok .skipped := by
  cases mode with
  | default => exact absurd rfl noDefault
  | fail =>
    refine .inl fun b mode => ?_
    unfold onFailure
    cases cause <;> simp_all
  | skip =>
    refine .inr fun b mode => ?_
    unfold onFailure
    cases cause <;> simp_all

theorem direct_of_ok {v : Json} (run : directSteps scope c.steps data = .ok v) :
    c.direct scope data = .ok (.value v) := by
  rw [direct, run]

theorem direct_of_error {step : String} {cause : LookupError}
    (run : directSteps scope c.steps data = .error (step, cause)) :
    c.direct scope data = c.onFailure step cause := by
  rw [direct, run]

/-! ### One chain after another -/

/-- One of two chains gives this: the first on the data, or the second on the first one's value. -/
def OneGives (c d : Chain) (scope : Scope) (data : Json) (given : Except EvalError Outcome) : Prop :=
  c.evaluateAlone scope data = given ∨
    ∃ m, c.evaluateAlone scope data = .ok (.value m) ∧ d.evaluateAlone scope m = given

/-- The whole chain does what its two parts do in turn, each on a table of its own. -/
structure Composes (whole c d : Chain) (scope : Scope) (data : Json) : Prop where
  value : ∀ v, whole.evaluateAlone scope data = .ok (.value v) ↔
    ∃ m, c.evaluateAlone scope data = .ok (.value m) ∧ d.evaluateAlone scope m = .ok (.value v)
  skipped : whole.evaluateAlone scope data = .ok .skipped ↔ OneGives c d scope data (.ok .skipped)
  failed : (∃ e, whole.evaluateAlone scope data = .error e) ↔
    ∃ e, OneGives c d scope data (.error e)
  /-- The errors tell the same step and cause. -/
  error : ∀ e, OneGives c d scope data (.error e) → ∃ source step cause,
    e = .lookup source step cause ∧
      whole.evaluateAlone scope data = .error (.lookup whole.source step cause)

theorem composes_of_steps (steps : whole.steps = c.steps ++ d.steps)
    (mode : c.failMode = whole.failMode) (mode' : d.failMode = whole.failMode)
    (noDefault : whole.failMode ≠ .default) (wellSpelled : c.WellSpelled)
    (wellSpelled' : d.WellSpelled) (spelled : whole.WellSpelled)
    (ignores : ∀ step ∈ whole.steps, step.lookup.IgnoresTable)
    (present : ∀ step ∈ whole.steps, step.lookup.MissesNoMemo) (scope : Scope) (data : Json) :
    Composes whole c d scope data := by
  have alone := evaluateAlone_eq_direct spelled ignores scope data
  rw [steps, List.forall_mem_append] at ignores present
  have aloneFirst := evaluateAlone_eq_direct wellSpelled ignores.1 scope data
  have run : directSteps scope whole.steps data = _ := steps ▸ directSteps_append scope _ _ data
  cases first : directSteps scope c.steps data with
  | error failure =>
    -- The first chain stops, so the whole one stops at the same step.
    obtain ⟨step, cause⟩ := failure
    rw [first] at run
    rw [direct_of_error run] at alone
    rw [direct_of_error first] at aloneFirst
    have other : ∀ key, cause ≠ .missingMemo key := fun key missing =>
      directSteps_ne_missingMemo present.1 scope data step key (by rw [first, missing])
    rcases onFailure_of_ne_default noDefault step other with same | same
    all_goals
      rw [same whole rfl] at alone
      rw [same c mode] at aloneFirst
      constructor <;> simp [OneGives, alone, aloneFirst]
  | ok m =>
    rw [first] at run
    rw [direct_of_ok first] at aloneFirst
    have aloneSecond := evaluateAlone_eq_direct wellSpelled' ignores.2 scope m
    cases second : directSteps scope d.steps m with
    | error failure =>
      obtain ⟨step, cause⟩ := failure
      have run : directSteps scope whole.steps data = .error (step, cause) := run.trans second
      rw [direct_of_error run] at alone
      rw [direct_of_error second] at aloneSecond
      have other : ∀ key, cause ≠ .missingMemo key := fun key missing =>
        directSteps_ne_missingMemo present.2 scope m step key (by rw [second, missing])
      rcases onFailure_of_ne_default noDefault step other with same | same
      all_goals
        rw [same whole rfl] at alone
        rw [same d mode'] at aloneSecond
        constructor <;> simp [OneGives, alone, aloneFirst, aloneSecond]
    | ok v =>
      have run : directSteps scope whole.steps data = .ok v := run.trans second
      rw [direct_of_ok run] at alone
      rw [direct_of_ok second] at aloneSecond
      constructor <;> simp [OneGives, alone, aloneFirst, aloneSecond]

/-- Two paths joined by a dot read as the steps of both, and their chain is the composition of the
two chains: it gives a value where one follows the other, and otherwise stops where one of them
stops. -/
theorem compile_append_composes {source source' : String} {path path' : List Path.Step}
    (read : Path.read source = .ok path) (read' : Path.read source' = .ok path') :
    Path.read (source ++ "." ++ source') = .ok (path ++ path') ∧
      ∀ o c d, compile source o = .ok c → compile source' o = .ok d → o.failMode ≠ .default →
        (∀ step ∈ c.steps ++ d.steps, step.lookup.IgnoresTable ∧ step.lookup.MissesNoMemo) →
        ∃ whole, compile (source ++ "." ++ source') o = .ok whole ∧
          whole.source = source ++ "." ++ source' ∧
          ∀ scope data, Composes whole c d scope data := by
  refine ⟨Path.read_append read read', fun o c d first second noDefault lookups => ?_⟩
  have compiled := compile_append first second
  refine ⟨_, compiled, rfl, fun scope data => ?_⟩
  have mode : c.failMode = o.failMode := by
    obtain ⟨_, _, -, -, rfl⟩ := compile_eq_ok_iff.mp first
    rfl
  have mode' : d.failMode = o.failMode := by
    obtain ⟨_, _, -, -, rfl⟩ := compile_eq_ok_iff.mp second
    rfl
  exact composes_of_steps rfl mode mode' noDefault (Compiled.wellSpelled ⟨_, _, first⟩)
    (Compiled.wellSpelled ⟨_, _, second⟩) (Compiled.wellSpelled ⟨_, _, compiled⟩)
    (fun step member => (lookups step member).1) (fun step member => (lookups step member).2)
    scope data

/-- Two paths under skipping, with dots in the brackets at their border. -/
theorem compile_append_composes_bracketed :
    let first := "crew.<find:name=J. Cook>"
    let second := "<find:at=1.5>.born"
    let o : Options := { failMode := .skip }
    (compile first o).isOk ∧ (compile second o).isOk ∧
      ∀ c d, compile first o = .ok c → compile second o = .ok d →
        (∀ step ∈ c.steps ++ d.steps, step.lookup.IgnoresTable ∧ step.lookup.MissesNoMemo) ∧
          ∃ whole, compile "crew.<find:name=J. Cook>.<find:at=1.5>.born" o = .ok whole ∧
            ∀ scope data, Composes whole c d scope data := by
  intro first second o
  refine ⟨by decide +kernel, by decide +kernel, fun c d compiled compiled' => ?_⟩
  obtain ⟨path, read, -⟩ := spells_of_compile compiled
  obtain ⟨path', read', -⟩ := spells_of_compile compiled'
  have builtin : ∀ step ∈ c.steps ++ d.steps, step.lookup.IsBuiltin := by
    intro step member
    apply Registry.isBuiltin_of_makes
    rcases List.mem_append.mp member with member | member
    · exact CompiledWith.makes ⟨first, o, rfl, compiled⟩ step member
    · exact CompiledWith.makes ⟨second, o, rfl, compiled'⟩ step member
  have lookups := fun step member =>
    And.intro (builtin step member).ignoresTable (builtin step member).missesNoMemo
  obtain ⟨whole, joined, -, composes⟩ := (compile_append_composes read read').2 o c d compiled
    compiled' (by decide) lookups
  exact ⟨lookups, whole, joined, composes⟩

end Chain

end Reshape
