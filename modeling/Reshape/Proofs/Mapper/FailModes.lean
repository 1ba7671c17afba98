import Reshape.Proofs.Mapper.Sharing
import Reshape.Proofs.Plan.FailModes

/-!
Mappers that differ in nothing but the fail mode. Failures are told apart only after the table has
them, so the mappers fill the same tables, and each gives what the one that passes every failure on
gives wherever that one succeeds.
-/

namespace Reshape

/-! ### Chains -/

namespace Chain

/-- Takes the same steps, and does the same with their failures but for excused errors. -/
structure RefinedBy (excused : EvalError → Prop) (c d : Chain) : Prop where
  source : c.source = d.source
  steps : c.steps = d.steps
  onFailure : ∀ step cause, Refines excused (c.onFailure step cause) (d.onFailure step cause)

/-- Goes on after every failure but a missing memo. -/
def Recovers (c : Chain) : Prop :=
  ∀ step cause, (∀ key, cause ≠ .missingMemo key) → ∃ outcome, c.onFailure step cause = .ok outcome

theorem RefinedBy.evaluate {excused : EvalError → Prop} {c d : Chain}
    (refined : c.RefinedBy excused d) (scope : Scope) (data : Json) (t : Table) :
    Refines excused (c.evaluate scope data t).1 (d.evaluate scope data t).1 ∧
      (c.evaluate scope data t).2 = (d.evaluate scope data t).2 := by
  rw [Chain.evaluate, Chain.evaluate, refined.steps]
  split
  · exact ⟨.refl _, rfl⟩
  · exact ⟨refined.onFailure _ _, rfl⟩

theorem Recovers.evaluate {c : Chain} {t : Table} (recovers : c.Recovers)
    (builtin : ∀ step ∈ c.steps, step.lookup.IsBuiltin) (settled : t.Settled) (scope : Scope)
    (data : Json) : ∃ outcome, (c.evaluate scope data t).1 = .ok outcome := by
  obtain ⟨present, -⟩ := runSteps_settled builtin settled scope "" data
  rw [Chain.evaluate]
  split
  · exact ⟨_, rfl⟩
  · rename_i step cause t' run
    rw [run] at present
    exact recovers step cause fun key missing => present step key (by rw [missing])

variable (c : Chain) (failMode : FailMode) (fallback fallback' : Option Json)

theorem refinedBy_underMode_fail :
    (c.underMode .fail fallback).RefinedBy (fun _ => True) (c.underMode failMode fallback') where
  source := rfl
  steps := rfl
  onFailure step cause := by
    -- This mode recovers from nothing, so there is nothing to compare.
    refine .inr ?_
    cases cause <;> exact ⟨_, trivial, rfl⟩

theorem refinedBy_underMode_default_none :
    (c.underMode .default none).RefinedBy (fun _ => False) (c.underMode .fail fallback) where
  source := rfl
  steps := rfl
  onFailure step cause := by cases cause <;> exact .refl _

theorem onFailure_underMode_skip (step : String) {cause : LookupError}
    (present : ∀ key, cause ≠ .missingMemo key) :
    (c.underMode .skip fallback).onFailure step cause = .ok .skipped := by
  cases cause with
  | missingMemo key => exact absurd rfl (present key)
  | _ => rfl

theorem onFailure_underMode_default (v : Json) (step : String) {cause : LookupError}
    (present : ∀ key, cause ≠ .missingMemo key) :
    (c.underMode .default (some v)).onFailure step cause = .ok (.value v) := by
  cases cause with
  | missingMemo key => exact absurd rfl (present key)
  | _ => rfl

theorem recovers_underMode_skip : (c.underMode .skip fallback).Recovers :=
  fun step _ present => ⟨_, c.onFailure_underMode_skip fallback step present⟩

theorem recovers_underMode_default (v : Json) : (c.underMode .default (some v)).Recovers :=
  fun step _ present => ⟨_, c.onFailure_underMode_default v step present⟩

end Chain

/-! ### Plans -/

namespace Mapper

theorem runChain_refines {excused : EvalError → Prop} {c d : Chain}
    (refined : c.RefinedBy excused d) (scope : Scope) (r : Run) :
    Refines excused (runChain c scope r) (runChain d scope r) := by
  obtain ⟨given, left⟩ := refined.evaluate scope scope.root r.table
  rw [runChain, runChain]
  rcases first : c.evaluate scope scope.root r.table with ⟨x, t⟩
  rcases second : d.evaluate scope scope.root r.table with ⟨y, t'⟩
  rw [first, second] at given left
  dsimp only at given left
  subst left
  rcases given with rfl | ⟨e, fine, rfl⟩
  · exact .refl _
  · exact .inr ⟨e, fine, rfl⟩

theorem listElements_refines {excused : EvalError → Prop} {c d : Chain}
    (refined : c.RefinedBy excused d) (outcome : Outcome) :
    Refines excused (listElements c outcome) (listElements d outcome) := by
  cases outcome with
  | skipped => exact .refl _
  | value v =>
    rw [listElements, listElements, refined.steps, refined.source]
    split
    · exact .refl _
    · exact (refined.onFailure _ _).bind fun _ => .refl _

variable {excused : EvalError → Prop} {f g : Chain → Chain}

mutual

/-- Where each chain of one plan is refined by that of another, so is the whole plan. -/
theorem evaluateNode_refines (refined : ∀ c, (f c).RefinedBy excused (g c))
    (scope : Scope) (r : Run) (node : Node) :
    Refines excused (evaluateNode scope r (node.mapChains fun _ => f))
      (evaluateNode scope r (node.mapChains fun _ => g)) := by
  match node with
  | .constant v => exact .refl _
  | .expression c => exact runChain_refines (refined c) scope r
  | .nested entries =>
    exact (evaluateEntries_refines refined scope r 0 entries).bind fun _ => .refl _
  | .list root entries =>
    refine (runChain_refines (refined root) scope r).bind fun given => ?_
    refine (listElements_refines (refined root) given.1).bind fun items => ?_
    cases items with
    | none => exact .refl _
    | some items =>
      have each := Refines.mapM (fun item =>
        evaluateEntries_refines refined { scope with root := item } {} 0 entries) items
      exact each.bind fun _ => .refl _
  | .sequence items =>
    exact (evaluateItems_refines refined scope r 0 items).bind fun _ => .refl _

theorem evaluateEntries_refines (refined : ∀ c, (f c).RefinedBy excused (g c))
    (scope : Scope) (r : Run) (n : Nat) (entries : List (String × Node)) :
    Refines excused (evaluateEntries scope r (Node.mapEntries (fun _ => f) n entries))
      (evaluateEntries scope r (Node.mapEntries (fun _ => g) n entries)) := by
  match entries with
  | [] => exact .refl _
  | (key, node) :: rest =>
    refine (evaluateNode_refines refined scope r node).bind fun first => ?_
    exact (evaluateEntries_refines refined scope first.2 (n + 1) rest).bind fun _ => .refl _

theorem evaluateItems_refines (refined : ∀ c, (f c).RefinedBy excused (g c))
    (scope : Scope) (r : Run) (n : Nat) (items : List Node) :
    Refines excused (evaluateItems scope r (Node.mapItems (fun _ => f) n items))
      (evaluateItems scope r (Node.mapItems (fun _ => g) n items)) := by
  match items with
  | [] => exact .refl _
  | node :: rest =>
    refine (evaluateNode_refines refined scope r node).bind fun first => ?_
    match first with
    | (.skipped, r) => exact .refl _
    | (.value v, r) => exact (evaluateItems_refines refined scope r (n + 1) rest).bind fun _ => .refl _

end

/-! ### Recovery -/

/-- Where every chain recovers, a run fails for nothing but a list's elements. -/
theorem evaluate_of_recovers {m : Mapper} (recovers : ∀ c ∈ m.plan.chains, c.Recovers)
    (builtin : ∀ c ∈ m.plan.chains, ∀ step ∈ c.steps, step.lookup.IsBuiltin) (data context : Json) :
    (∃ result, m.evaluate data context = .ok result) ∨
      ∃ e, m.evaluate data context = .error e ∧
        ∃ root ∈ m.plan.chains, ∃ outcome, listElements root outcome = .error e := by
  cases run : m.evaluate data context with
  | ok result => exact .inl ⟨result, rfl⟩
  | error e =>
    refine .inr ⟨e, rfl, by_contra fun none => ?_⟩
    refine evaluate_ne_error (fun l member => ?_)
      (fun root member outcome failed => none ⟨root, member, outcome, failed⟩) run
    -- No table comes to hold a missing memo, so chains recover from all that can happen to them.
    refine Chain.each_of_invariant (fun c among t settled => ?_) Table.settled_empty
    have own := mem_chains_of_mem_ledgers member among
    obtain ⟨outcome, given⟩ :=
      (recovers c own).evaluate (builtin c own) settled l.scope l.scope.root
    have left := (Chain.evaluate_settled (builtin c own) settled l.scope l.scope.root).2
    refine ⟨?_, left⟩
    rw [given]
    nofun

theorem listElements_skip (c : Chain) (fallback : Option Json) (outcome : Outcome) :
    ∃ items, listElements (c.underMode .skip fallback) outcome = .ok items := by
  cases outcome with
  | skipped => exact ⟨none, rfl⟩
  | value v =>
    rw [listElements]
    split
    · exact ⟨_, rfl⟩
    · exact ⟨none, rfl⟩

theorem listElements_default {c : Chain} {v : Json} {outcome : Outcome} {e : EvalError}
    (h : listElements (c.underMode .default (some v)) outcome = .error e) :
    elements? v = none ∧ e = .notASequence c.source v.kind := by
  cases outcome with
  | skipped => cases h
  | value found =>
    rw [listElements] at h
    split at h
    · cases h
    · have present : ∀ key, LookupError.typeMismatch .list found.kind ≠ .missingMemo key := by simp
      simp only [Chain.onFailure_underMode_default c v _ present, bind, Except.bind] at h
      split at h
      · cases h
      · rename_i without
        exact ⟨without, (Except.error.inj h).symm⟩

/-! ### Mappers -/

/-- How the mappers of one template relate, given the fail mode, the default and whether prefixes
are shared. -/
structure Graded (mapper : FailMode → Option Json → Bool → Mapper) (data context : Json) : Prop where
  fail : ∀ fallback optimize result,
    (mapper .fail fallback optimize).evaluate data context = .ok result →
      ∀ failMode fallback' optimize',
        (mapper failMode fallback' optimize').evaluate data context = .ok result
  skip : ∀ fallback optimize, ∃ result,
    (mapper .skip fallback optimize).evaluate data context = .ok result
  default : ∀ v optimize,
    (∃ result, (mapper .default (some v) optimize).evaluate data context = .ok result) ∨
      elements? v = none ∧ ∃ source,
        (mapper .default (some v) optimize).evaluate data context =
          .error (.notASequence source v.kind)
  defaultNone : ∀ fallback optimize optimize',
    (mapper .default none optimize).evaluate data context =
      (mapper .fail fallback optimize').evaluate data context

/-- The mapper of a plan under another fail mode and default. -/
def underMode (p : Plan) (failMode : FailMode) (fallback : Option Json) (optimize : Bool) : Mapper :=
  ofPlan optimize (p.underMode failMode fallback)

section UnderMode

variable {p : Plan} (builtin : ∀ c ∈ p.chains, ∀ step ∈ c.steps, step.lookup.IsBuiltin)
include builtin

theorem evaluate_underMode (wellSpelled : ∀ c ∈ p.chains, c.WellSpelled) (failMode : FailMode)
    (fallback : Option Json) (optimize : Bool) (data context : Json) :
    (underMode p failMode fallback optimize).evaluate data context =
      (underMode p failMode fallback false).evaluate data context := by
  refine evaluate_ofPlan ?_ optimize data context
  rw [p.chains_underMode, List.forall_mem_map]
  intro c member
  exact ⟨wellSpelled c member, fun step among =>
    (builtin c member step among).ignoresTable.keepsEntries⟩

theorem evaluate_underMode_of_recovers {failMode : FailMode} {fallback : Option Json}
    (recovers : ∀ c : Chain, (c.underMode failMode fallback).Recovers) (data context : Json) :
    (∃ result, (underMode p failMode fallback false).evaluate data context = .ok result) ∨
      ∃ e, (underMode p failMode fallback false).evaluate data context = .error e ∧
        ∃ c outcome, listElements (Chain.underMode failMode fallback c) outcome = .error e := by
  have chains : (underMode p failMode fallback false).plan.chains =
      p.chains.map (Chain.underMode failMode fallback) := p.chains_underMode failMode fallback
  have recovered := evaluate_of_recovers (m := underMode p failMode fallback false)
    (by rw [chains, List.forall_mem_map]; exact fun c _ => recovers c)
    (by rw [chains, List.forall_mem_map]; exact builtin) data context
  rcases recovered with given | ⟨e, run, root, member, outcome, failed⟩
  · exact .inl given
  · rw [chains] at member
    obtain ⟨c, -, rfl⟩ := List.mem_map.mp member
    exact .inr ⟨e, run, c, outcome, failed⟩

end UnderMode

theorem underMode_refines {excused : EvalError → Prop} {failMode failMode' : FailMode}
    {fallback fallback' : Option Json}
    (refined : ∀ c : Chain,
      (c.underMode failMode fallback).RefinedBy excused (c.underMode failMode' fallback'))
    (p : Plan) (data context : Json) :
    Refines excused ((underMode p failMode fallback false).evaluate data context)
      ((underMode p failMode' fallback' false).evaluate data context) :=
  (evaluateEntries_refines refined _ _ 0 p).bind fun _ => .refl _

theorem graded_underMode {p : Plan} (wellSpelled : ∀ c ∈ p.chains, c.WellSpelled)
    (builtin : ∀ c ∈ p.chains, ∀ step ∈ c.steps, step.lookup.IsBuiltin) (data context : Json) :
    Graded (underMode p) data context := by
  have plain := fun failMode fallback optimize =>
    evaluate_underMode builtin wellSpelled failMode fallback optimize data context
  constructor
  case fail =>
    intro fallback optimize result given failMode fallback' optimize'
    rw [plain] at given ⊢
    have refines := underMode_refines
      (fun c => c.refinedBy_underMode_fail failMode fallback fallback') p data context
    exact refines.eq_ok given
  case skip =>
    intro fallback optimize
    rw [plain]
    have recovers := fun c : Chain => c.recovers_underMode_skip fallback
    rcases evaluate_underMode_of_recovers builtin recovers data context with
      given | ⟨e, -, c, outcome, failed⟩
    · exact given
    · obtain ⟨items, given⟩ := listElements_skip c fallback outcome
      cases given.symm.trans failed
  case default =>
    intro v optimize
    rw [plain]
    have recovers := fun c : Chain => c.recovers_underMode_default v
    rcases evaluate_underMode_of_recovers builtin recovers data context with
      given | ⟨e, run, c, outcome, failed⟩
    · exact .inl given
    · obtain ⟨without, rfl⟩ := listElements_default failed
      exact .inr ⟨without, c.source, run⟩
  case defaultNone =>
    intro fallback optimize optimize'
    rw [plain, plain .fail]
    exact (underMode_refines (fun c => c.refinedBy_underMode_default_none fallback) p data
      context).eq

/-- One template of paths only, compiled under all fail modes. Passing every failure on is the most
demanding: a result it has, with its counters, is that of all modes. Skipping never fails, a default
only where it stands in for a list and has no elements, and without one it is no different from
passing failures on. -/
theorem compile_failModes {o : Options} {template : Template} {p : Plan}
    (inherited : template.chains = []) (compiled : Plan.ofTemplate o template = .ok p)
    (builtin : ∀ c ∈ p.chains, ∀ step ∈ c.steps, step.lookup.IsBuiltin) :
    ∃ mapper : FailMode → Option Json → Bool → Mapper,
      (∀ failMode fallback optimize,
        compile template { o with failMode, fallback, optimize } =
          .ok (mapper failMode fallback optimize)) ∧
      ∀ data context, Graded mapper data context := by
  refine ⟨underMode p, fun failMode fallback optimize => ?_, graded_underMode ?_ builtin⟩
  · have given := Plan.ofTemplate_underMode o failMode fallback inherited
    rw [compiled] at given
    exact (compile_eq_map template { o with failMode, fallback } optimize).trans (by rw [given]; rfl)
  · intro c member
    refine ((Plan.supplied_of_ofTemplate compiled member).compiled ?_).wellSpelled
    rw [inherited]
    nofun

/-- A list behind a path that starts with the same step, so its root reuses the prefix. -/
def crew : Template :=
  .mapping [("captain", .expression "crew.0.name"),
    ("mates", .list (.expression "crew.<find:ship=Argo>.mates")
      (.mapping [("name", .expression "name"), ("born", .expression "born.<as_type:int>")]))]

theorem compile_failModes_crew :
    crew.chains = [] ∧ ∃ p, Plan.ofTemplate {} crew = .ok p ∧
      (∀ c ∈ p.chains, ∀ step ∈ c.steps, step.lookup.IsBuiltin) ∧
      p.share.2.reuses = 1 ∧
      ∃ mapper : FailMode → Option Json → Bool → Mapper,
        (∀ failMode fallback optimize,
          compile crew { failMode, fallback, optimize } = .ok (mapper failMode fallback optimize)) ∧
        ∀ data context, Graded mapper data context := by
  have inherited : crew.chains = [] := rfl
  have reuses : (Plan.ofTemplate {} crew).toOption.map (·.share.2.reuses) = some 1 := by
    decide +kernel
  cases compiled : Plan.ofTemplate {} crew with
  | error e => simp [compiled, Except.toOption] at reuses
  | ok p =>
    have builtin : ∀ c ∈ p.chains, ∀ step ∈ c.steps, step.lookup.IsBuiltin := fun c member =>
      (Plan.supplied_of_ofTemplate compiled member).lookups
        (fun _ => Registry.isBuiltin_of_makes) (by rw [inherited]; nofun)
    rw [compiled] at reuses
    exact ⟨inherited, p, rfl, builtin, Option.some.inj reuses,
      compile_failModes (o := {}) inherited compiled builtin⟩

end Mapper

end Reshape
