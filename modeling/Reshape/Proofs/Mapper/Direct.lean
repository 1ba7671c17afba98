import Reshape.Proofs.Chain.Direct
import Reshape.Proofs.Mapper.Sharing

/-!
Evaluation of plans without tables. With one registry, whose lookups ignore the table, a mapper gives
what its chains give when each is evaluated from scratch.
-/

namespace Reshape.Mapper

/-- Evaluates a plan without any table: every chain folds its lookups over the data of its scope. -/
def direct (p : Plan) (data context : Json) : Except EvalError Json :=
  assemble (fun scope c => c.direct scope scope.root) p data context

theorem each_direct {chains all : List Chain} (coherent : Chain.Coherent all)
    (among : ∀ c ∈ chains, c ∈ all) (wellSpelled : ∀ c ∈ all, c.WellSpelled)
    (ignores : ∀ c ∈ all, ∀ step ∈ c.steps, step.lookup.IgnoresTable) (scope : Scope) :
    Chain.Each (Gives fun scope c => c.direct scope scope.root) scope .empty chains :=
  Chain.each_of_invariant
    (fun c member _ faithful =>
      have own := among c member
      faithful.evaluate coherent own (wellSpelled c own) (ignores c own))
    (Chain.faithful_empty all scope scope.root)

/-- The tables of a mapper leave no trace in what it gives. -/
theorem evaluate_eq_direct {o : Options} {template : Template} {p : Plan} {r : Registry}
    (compiled : Plan.ofTemplate o template = .ok p) (uniform : ∀ c ∈ p.chains, c.CompiledWith r)
    (ignores : ∀ l, r.Makes l → l.IgnoresTable) (optimize : Bool) :
    ∃ m, compile template { o with optimize } = .ok m ∧
      ∀ data context, (m.evaluate data context).map Prod.fst = direct p data context := by
  have ignoresAll : ∀ c ∈ p.chains, ∀ step ∈ c.steps, step.lookup.IgnoresTable :=
    fun c member step among => ignores _ ((uniform c member).makes step among)
  have wellSpelled : ∀ c ∈ p.chains, c.WellSpelled :=
    fun c member => (uniform c member).compiled.wellSpelled
  have shareable : ∀ c ∈ p.chains, Shareable c := fun c member =>
    ⟨wellSpelled c member, fun step among => (ignoresAll c member step among).keepsEntries⟩
  refine ⟨ofPlan optimize p, by rw [compile_eq_map, compiled]; rfl, fun data context => ?_⟩
  rw [evaluate_ofPlan shareable]
  exact evaluate_eq_assemble fun l member =>
    each_direct (Chain.coherent_of_compiledWith uniform)
      (fun c among => mem_chains_of_mem_ledgers member among) wellSpelled ignoresAll l.scope

/-- Two paths with a step in common, of which one fails and the other is skipped. -/
theorem evaluate_eq_direct_common_step :
    let first : Chain :=
      ⟨"x.y", [⟨"x", .key "x"⟩, ⟨"y", .key "y"⟩], none, .fail, "pathmap.registry"⟩
    let second : Chain :=
      ⟨"x.z", [⟨"x", .key "x"⟩, ⟨"z", .key "z"⟩], some .null, .skip, "pathmap.registry"⟩
    let template : Template := .mapping [("first", .expression "x.y"), ("second", .chain second)]
    let p : Plan := [("first", .expression first), ("second", .expression second)]
    Plan.ofTemplate {} template = .ok p ∧ (∀ c ∈ p.chains, c.CompiledWith .standard) ∧
      (∀ l, Registry.standard.Makes l → l.IgnoresTable) ∧
      ∃ m, compile template {} = .ok m ∧
        ∀ data context, (m.evaluate data context).map Prod.fst = direct p data context := by
  intro first second template p
  have compiled : Plan.ofTemplate {} template = .ok p := rfl
  have uniform : ∀ c ∈ p.chains, c.CompiledWith .standard := by
    intro c member
    rcases List.mem_pair.mp member with rfl | rfl
    · exact ⟨"x.y", {}, rfl, rfl⟩
    · exact ⟨"x.z", { fallback := some .null, failMode := .skip }, rfl, rfl⟩
  have ignores : ∀ l, Registry.standard.Makes l → l.IgnoresTable :=
    fun _ makes => (Registry.isBuiltin_of_makes makes).ignoresTable
  exact ⟨compiled, uniform, ignores, evaluate_eq_direct compiled uniform ignores true⟩

end Reshape.Mapper
