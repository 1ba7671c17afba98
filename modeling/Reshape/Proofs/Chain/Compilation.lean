import Reshape.Proofs.Chain.Prefixes
import Reshape.Proofs.Lookup.Effects

/-!
Compiled chains: their steps have the texts of the path's steps and lookups that the registry makes.
A prefix stands for the same path steps in all chains, and with one registry also for the same
lookups.
-/

namespace Reshape

namespace Chain

def Compiled (c : Chain) : Prop := ∃ source o, compile source o = .ok c

/-- The chain comes from a path and this registry. -/
def CompiledWith (r : Registry) (c : Chain) : Prop :=
  ∃ source o, o.registry = r ∧ compile source o = .ok c

/-- All chains there are: compiled ones, and those that start from a shared prefix instead. -/
inductive Constructed : Chain → Prop
  | compiled {c : Chain} : c.Compiled → Constructed c
  | reuse {c : Chain} (depth : Nat) : Constructed c → Constructed (c.reuse depth)

theorem CompiledWith.compiled {r : Registry} {c : Chain} (compiled : c.CompiledWith r) :
    c.Compiled := by
  obtain ⟨source, o, -, done⟩ := compiled
  exact ⟨source, o, done⟩

/-- A chain without memo steps is still as it was compiled. -/
theorem Constructed.compiled_of_hasMemo {c : Chain} (constructed : c.Constructed)
    (noMemo : c.hasMemo = false) : c.Compiled := by
  induction constructed with
  | compiled compiled => exact compiled
  | @reuse c depth _ ih =>
    rw [Chain.reuse] at noMemo ⊢
    split at noMemo
    · simp [hasMemo, Step.isMemo, Step.memo, Lookup.isMemo] at noMemo
    · exact ih noMemo

/-! ### Steps -/

theorem compileStep_eq_ok {r : Registry} {step : Path.Step} {s : Step}
    (h : compileStep r step = .ok s) : s.raw = step.raw ∧ r.Makes s.lookup := by
  rw [compileStep] at h
  split at h
  all_goals
    obtain ⟨lookup, made, done⟩ := bind_eq_ok_iff.mp h
    obtain rfl := pure_eq_ok_iff.mp done
    exact ⟨rfl, _, _, made⟩

theorem compile_eq_ok_iff {source : String} {o : Options} {c : Chain} :
    compile source o = .ok c ↔ ∃ path steps, Path.read source = .ok path ∧
      path.mapM (compileStep o.registry) = .ok steps ∧
      c = ⟨source, steps, o.fallback, o.failMode, o.registry.name⟩ := by
  simp only [compile, bind_eq_ok_iff, pure_eq_ok_iff]
  constructor
  · rintro ⟨path, read, steps, made, done⟩
    exact ⟨path, steps, read, made, done.symm⟩
  · rintro ⟨path, steps, read, made, done⟩
    exact ⟨path, read, steps, made, done.symm⟩

theorem spells_of_compile {source : String} {o : Options} {c : Chain}
    (compiled : compile source o = .ok c) :
    ∃ path, Path.read source = .ok path ∧ c.Spells path ∧
      List.Forall₂ (fun step s => compileStep o.registry step = .ok s) path c.steps := by
  obtain ⟨path, steps, read, made, rfl⟩ := compile_eq_ok_iff.mp compiled
  obtain ⟨nonempty, -, wellFormed⟩ := Path.read_eq_ok_iff.mp read
  have each := mapM_eq_ok_iff.mp made
  refine ⟨path, read, ⟨nonempty, wellFormed, ?_⟩, each⟩
  rw [texts]
  clear read made nonempty wellFormed compiled
  induction each with
  | nil => rfl
  | cons first _ ih =>
    rw [List.map_cons, List.map_cons, ih, (compileStep_eq_ok first).1]

theorem exists_of_mem_steps {source : String} {o : Options} {c : Chain} {s : Step}
    (compiled : compile source o = .ok c) (member : s ∈ c.steps) :
    ∃ step : Path.Step, step.WellFormed ∧ compileStep o.registry step = .ok s := by
  obtain ⟨path, -, ⟨-, wellFormed, -⟩, each⟩ := spells_of_compile compiled
  obtain ⟨step, among, made⟩ := exists_of_mem_right each member
  exact ⟨step, wellFormed step among, made⟩

/-- With another step written in place of one of a compiled path, the path is compiled to the same
chain but for that step. -/
theorem compile_replace {source : String} {o : Options} {c : Chain} {before after : List Step}
    {s s' : Step} {step : Path.Step} (compiled : compile source o = .ok c)
    (place : c.steps = before ++ s :: after) (wellFormed : step.WellFormed)
    (made : compileStep o.registry step = .ok s') :
    ∃ c', c'.steps = before ++ s' :: after ∧
      compile (".".intercalate (c'.steps.map Step.raw)) o = .ok c' := by
  obtain ⟨path, -, ⟨-, fine, -⟩, each⟩ := spells_of_compile compiled
  rw [place] at each
  obtain ⟨front, _, first, rest, rfl⟩ := exists_append_of_forall₂ each
  obtain ⟨old, back, -, last, rfl⟩ := List.forall₂_cons_right_iff.mp rest
  have replaced : List.Forall₂ (fun step s => compileStep o.registry step = .ok s)
      (front ++ step :: back) (before ++ s' :: after) := List.rel_append first (.cons made last)
  have wellFormed' : ∀ step' ∈ front ++ step :: back, step'.WellFormed := by
    intro step' member
    rcases List.mem_append.mp member with member | member
    · exact fine step' (List.mem_append_left _ member)
    · rcases List.mem_cons.mp member with rfl | member
      · exact wellFormed
      · exact fine step' (List.mem_append_right _ (List.mem_cons_of_mem _ member))
  have texts : (before ++ s' :: after).map Step.raw =
      (front ++ step :: back).map Path.Step.raw := by
    rw [← List.forall₂_eq_eq_eq, List.forall₂_map_left_iff, List.forall₂_map_right_iff]
    exact replaced.flip.imp fun s step made => (compileStep_eq_ok made).1
  refine ⟨⟨".".intercalate ((before ++ s' :: after).map Step.raw), before ++ s' :: after, o.fallback,
    o.failMode, o.registry.name⟩, rfl, compile_eq_ok_iff.mpr ⟨front ++ step :: back, _, ?_, ?_, rfl⟩⟩
  · exact Path.read_eq_ok_iff.mpr ⟨by simp, congrArg _ texts, wellFormed'⟩
  · exact mapM_eq_ok_iff.mpr replaced

theorem CompiledWith.spells {r : Registry} {c : Chain} (compiled : c.CompiledWith r) :
    ∃ path, c.Spells path ∧ List.Forall₂ (fun step s => compileStep r step = .ok s) path c.steps := by
  obtain ⟨source, o, rfl, done⟩ := compiled
  obtain ⟨path, -, spells, each⟩ := spells_of_compile done
  exact ⟨path, spells, each⟩

theorem Compiled.wellSpelled {c : Chain} (compiled : c.Compiled) : c.WellSpelled := by
  obtain ⟨source, o, done⟩ := compiled
  obtain ⟨path, spells, -⟩ := CompiledWith.spells ⟨source, o, rfl, done⟩
  exact ⟨path, spells⟩

theorem CompiledWith.makes {r : Registry} {c : Chain} (compiled : c.CompiledWith r) :
    ∀ step ∈ c.steps, r.Makes step.lookup := by
  obtain ⟨source, o, rfl, done⟩ := compiled
  obtain ⟨path, steps, -, made, rfl⟩ := compile_eq_ok_iff.mp done
  intro step member
  obtain ⟨_, -, h⟩ := exists_of_mem_mapM made member
  exact (compileStep_eq_ok h).2

/-- With one registry, a common prefix stands for common steps. -/
theorem CompiledWith.take_steps_eq {r : Registry} {c d : Chain} (first : c.CompiledWith r)
    (second : d.CompiledWith r) {i j : Nat} (same : c.upTo (i + 1) = d.upTo (j + 1)) :
    c.steps.take (i + 1) = d.steps.take (j + 1) := by
  obtain ⟨path, spells, made⟩ := first.spells
  obtain ⟨path', spells', made'⟩ := second.spells
  have front := mapM_eq_ok_iff.mpr (List.forall₂_take (i + 1) made)
  have front' := mapM_eq_ok_iff.mpr (List.forall₂_take (j + 1) made')
  rw [spells.take_inj spells' same, front'] at front
  exact (Except.ok.inj front).symm

/-! ### What a prefix stands for -/

theorem length_prefixes {c : Chain} (wellSpelled : c.WellSpelled) :
    c.prefixes.length = c.steps.length := by
  rw [prefixes_eq wellSpelled, List.length_map, List.length_range]

theorem getElem?_prefixes {c : Chain} (wellSpelled : c.WellSpelled) {k : Nat} {text : String}
    (found : c.prefixes[k]? = some text) : k < c.steps.length ∧ text = c.upTo (k + 1) := by
  rw [prefixes_eq wellSpelled, List.getElem?_map, Option.map_eq_some_iff] at found
  obtain ⟨i, at_, rfl⟩ := found
  obtain ⟨bound, rfl⟩ := List.getElem?_eq_some_iff.mp at_
  rw [List.length_range] at bound
  rw [List.getElem_range]
  exact ⟨bound, rfl⟩

theorem Spells.upTo_eq_join {c : Chain} {path : List Path.Step} (spells : c.Spells path) (n : Nat) :
    c.upTo n = Path.join (path.take n) := by
  rw [upTo, spells.2.2, ← List.map_take, Path.join]

theorem Spells.read_upTo {c : Chain} {path : List Path.Step} (spells : c.Spells path) (k : Nat) :
    Path.read (c.upTo (k + 1)) = .ok (path.take (k + 1)) := by
  rw [Path.read_eq_ok_iff]
  refine ⟨by simpa using spells.1, spells.upTo_eq_join (k + 1), ?_⟩
  exact fun step member => spells.2.1 step (List.mem_of_mem_take member)

theorem Spells.length_eq {c : Chain} {path : List Path.Step} (spells : c.Spells path) :
    c.steps.length = path.length := by
  rw [← length_texts, spells.2.2, List.length_map]

theorem getLast?_prefixes {c : Chain} (wellSpelled : c.WellSpelled) :
    c.prefixes.getLast? = some (c.upTo c.steps.length) := by
  obtain ⟨step, rest, split, -⟩ := exists_first wellSpelled
  rw [prefixes_eq wellSpelled, split, List.length_cons, List.range_succ, List.map_append,
    List.map_singleton, List.getLast?_concat]

/-- A prefix identifies the steps it stands for: it reads as these steps, and a prefix of another
chain, with whatever registry, has the same text only if it stands for the same steps. -/
theorem prefixes_identify {source : String} {o : Options} {c : Chain}
    (compiled : compile source o = .ok c) :
    ∃ path, Path.read source = .ok path ∧ c.texts = path.map Path.Step.raw ∧
      c.prefixes.length = path.length ∧
      (∀ k text, c.prefixes[k]? = some text → Path.read text = .ok (path.take (k + 1))) ∧
      c.prefixes.getLast? = some source ∧
      ∀ source' o' d, compile source' o' = .ok d →
        ∃ path', Path.read source' = .ok path' ∧ d.texts = path'.map Path.Step.raw ∧
          ∀ i j text, c.prefixes[i]? = some text → d.prefixes[j]? = some text →
            i = j ∧ c.texts.take (i + 1) = d.texts.take (i + 1) ∧
              path.take (i + 1) = path'.take (i + 1) := by
  obtain ⟨path, read, spells, -⟩ := spells_of_compile compiled
  have wellSpelled : c.WellSpelled := ⟨path, spells⟩
  refine ⟨path, read, spells.2.2, (length_prefixes wellSpelled).trans spells.length_eq, ?_, ?_, ?_⟩
  · intro k text found
    obtain ⟨-, rfl⟩ := getElem?_prefixes wellSpelled found
    exact spells.read_upTo k
  · rw [getLast?_prefixes wellSpelled, spells.upTo_eq_join, spells.length_eq, List.take_length,
      (Path.read_eq_ok_iff.mp read).2.1]
  · intro source' o' d compiled'
    obtain ⟨path', read', spells', -⟩ := spells_of_compile compiled'
    have wellSpelled' : d.WellSpelled := ⟨path', spells'⟩
    refine ⟨path', read', spells'.2.2, fun i j text found found' => ?_⟩
    obtain ⟨bound, rfl⟩ := getElem?_prefixes wellSpelled found
    obtain ⟨bound', same⟩ := getElem?_prefixes wellSpelled' found'
    obtain ⟨rfl, -⟩ := upTo_eq_iff wellSpelled wellSpelled' bound bound' same
    exact ⟨rfl, take_texts_inj wellSpelled wellSpelled' same, spells.take_inj spells' same⟩

/-- Two paths with a lookup in common, in whose arguments dots and further separators stand. -/
theorem prefixes_identify_bracketed :
    let first := "xs.<find:name=a.b,at=1.5>.c"
    let second := "xs.<find:name=a.b,at=1.5>.d"
    (compile first {}).isOk ∧ (compile second {}).isOk ∧
      ∀ c d, compile first {} = .ok c → compile second {} = .ok d →
        c.prefixes[1]? = d.prefixes[1]? ∧
          ∀ i j text, c.prefixes[i]? = some text → d.prefixes[j]? = some text →
            i = j ∧ c.texts.take (i + 1) = d.texts.take (i + 1) := by
  intro first second
  refine ⟨by decide +kernel, by decide +kernel, fun c d compiled compiled' => ⟨?_, ?_⟩⟩
  · have same : (compile first {}).toOption.map (·.prefixes[1]?) =
        (compile second {}).toOption.map (·.prefixes[1]?) := by decide +kernel
    rw [compiled, compiled'] at same
    exact Option.some.inj same
  · obtain ⟨path, -, -, -, -, -, identify⟩ := prefixes_identify compiled
    obtain ⟨path', -, -, same⟩ := identify second {} d compiled'
    intro i j text found found'
    obtain ⟨rfl, texts, -⟩ := same i j text found found'
    exact ⟨rfl, texts⟩

end Chain

end Reshape
