import Mathlib.Data.List.Sort
import Reshape.Proofs.Chain.Compilation

/-!
Registries as maps. What a registry answers follows from the calls that filled it: of each name the
last one counts, the listing has every name once and in order, and a path with a step that no call
has named is refused with that listing.
-/

namespace Reshape

/-- The name that a registry is asked for when the step is compiled. -/
def Path.Step.lookupName (step : Path.Step) : Option String :=
  match step.form with
  | .key _ => none
  | .call name _ => some name

namespace Registry

/-- One name and the constructor that is registered under it. -/
abbrev Call := Option String × LookupMaker

/-- Registers in turn. -/
def registerAll (r : Registry) (calls : List Call) : Registry :=
  calls.foldl (fun r call => r.register call.1 call.2) r

/-- The calls that fill a registry of built-ins. -/
def builtinCalls : List Call :=
  [(none, fun a => .key <$> Key.ofArguments a),
    (some "find", fun a => .find <$> Find.ofArguments a),
    (some "as_type", fun a => .cast <$> Cast.ofArguments a),
    (some "arith", fun a => .arith <$> Arithmetic.ofArguments a)]

/-- The registries there are, each with the calls that filled it in their order. -/
inductive Filled : Registry → List Call → Prop
  | empty (name : String) : Filled (empty name) []
  | builtins (name : String) : Filled (builtins name) builtinCalls
  | register {r : Registry} {calls : List Call} (call : Call) :
    Filled r calls → Filled (r.register call.1 call.2) (calls ++ [call])

/-- The registries cannot be told apart. -/
structure Alike (r r' : Registry) : Prop where
  name : r.name = r'.name
  contains : ∀ name, r.contains name = r'.contains name
  resolve : ∀ name, r.resolve name = r'.resolve name
  construct : ∀ name a, r.construct name a = r'.construct name a
  names : r.names = r'.names
  summary : r.summary = r'.summary
  compile : ∀ source (o : Options),
    Chain.compile source { o with registry := r } = Chain.compile source { o with registry := r' }

variable {r r' : Registry} {calls : List Call} {name : Option String} {make : LookupMaker}

/-! ### Entries -/

theorem lookup_register (r : Registry) (name other : Option String) (make : LookupMaker) :
    (r.register name make).entries.lookup other =
      if other = name then some make else r.entries.lookup other :=
  Fields.lookup_insert name other make r.entries

/-- The entries hold what the calls say. -/
def Holds (r : Registry) (calls : List Call) : Prop :=
  ∀ name make, r.entries.lookup name = some make ↔ Fields.Last calls name make

theorem holds_empty (name : String) : (empty name).Holds [] := by
  intro name make
  constructor
  · intro found
    cases found
  · intro last
    exact absurd last Fields.not_last_nil

theorem Holds.register (holds : r.Holds calls) (call : Call) :
    (r.register call.1 call.2).Holds (calls ++ [call]) := by
  intro name make
  rw [lookup_register, Fields.last_concat_iff, ← holds name make]
  split
  · next same =>
    subst same
    simp [Prod.ext_iff]
  · next different => simp [Prod.ext_iff, Ne.symm different]

theorem Holds.registerAll (holds : r.Holds calls) (further : List Call) :
    (r.registerAll further).Holds (calls ++ further) := by
  induction further generalizing r calls with
  | nil => rwa [List.append_nil]
  | cons call further ih =>
    rw [List.append_cons]
    exact ih (holds.register call)

theorem holds_builtins (name : String) : (builtins name).Holds builtinCalls :=
  (holds_empty name).registerAll builtinCalls

theorem Filled.holds (filled : r.Filled calls) : r.Holds calls := by
  induction filled with
  | empty name => exact holds_empty name
  | builtins name => exact holds_builtins name
  | register call _ ih => exact ih.register call

theorem Holds.lookup_eq_none_iff (holds : r.Holds calls) :
    r.entries.lookup name = none ↔ name ∉ calls.map Prod.fst := by
  rw [← Fields.exists_last_iff, ← Option.not_isSome_iff_eq_none, Option.isSome_iff_exists]
  simp only [holds name]

/-! ### Answers -/

theorem resolve_eq_ok_iff : r.resolve name = .ok make ↔ r.entries.lookup name = some make := by
  rw [resolve]
  split <;> simp [*]

theorem resolve_of_absent (absent : r.entries.lookup name = none) :
    r.resolve name = .error (.unknownLookup name r.name r.names) := by
  rw [resolve, absent]

theorem construct_of_resolve (resolved : r.resolve name = .ok make) (a : Arguments) :
    r.construct name a = make a := by
  rw [construct, resolved]
  rfl

theorem construct_of_absent (absent : r.entries.lookup name = none) (a : Arguments) :
    r.construct name a = .error (.unknownLookup name r.name r.names) := by
  rw [construct, resolve_of_absent absent]
  rfl

/-- The sorted names are ascending. They are those of the entries and those that were there. -/
theorem foldl_names (entries : List Call) (sorted : List (String × Unit))
    (ascending : Fields.Ascending sorted) :
    let all := entries.foldl (fun sorted entry =>
      match entry.1 with
      | none => sorted
      | some name => Fields.insertSorted name () sorted) sorted
    Fields.Ascending all ∧ ∀ name, name ∈ all.map Prod.fst ↔
      name ∈ sorted.map Prod.fst ∨ some name ∈ entries.map Prod.fst := by
  induction entries generalizing sorted with
  | nil => exact ⟨ascending, by simp⟩
  | cons entry rest ih =>
    obtain ⟨_ | first, make⟩ := entry
    · have later := ih sorted ascending
      exact ⟨later.1, fun name => by simpa using later.2 name⟩
    · have later := ih _ (Fields.ascending_insertSorted first () ascending)
      refine ⟨later.1, fun name => (later.2 name).trans ?_⟩
      rw [Fields.mem_keys_insertSorted ascending, List.map_cons, List.mem_cons, Option.some_inj,
        or_comm (a := name = first), or_assoc]

theorem names_ascending (r : Registry) : r.names.Pairwise (· < ·) :=
  List.pairwise_map.mpr (foldl_names r.entries [] .nil).1

theorem mem_names_iff {name : String} : name ∈ r.names ↔ r.entries.lookup (some name) ≠ none := by
  have listed : name ∈ r.names ↔ some name ∈ r.entries.map Prod.fst :=
    ((foldl_names r.entries [] .nil).2 name).trans (by simp)
  rw [listed, ne_eq, Fields.lookup_eq_none_iff, not_not]

/-- A path is refused at its first step that has no constructor. -/
theorem compile_of_absent {source : String} {o : Options} {before after : List Path.Step}
    {step : Path.Step} (read : Path.read source = .ok (before ++ step :: after))
    (passed : ∀ earlier ∈ before, ∃ s, Chain.compileStep o.registry earlier = .ok s)
    (absent : o.registry.entries.lookup step.lookupName = none) :
    Chain.compile source o =
      .error (.unknownLookup step.lookupName o.registry.name o.registry.names) := by
  have failed : Chain.compileStep o.registry step =
      .error (.unknownLookup step.lookupName o.registry.name o.registry.names) := by
    have refused := construct_of_absent absent
    obtain ⟨raw, _ | _⟩ := step
    all_goals
      rw [Chain.compileStep]
      exact bind_eq_error_iff.mpr (.inl (refused _))
  rw [Chain.compile, bind_eq_error_iff]
  exact .inr ⟨_, read, bind_eq_error_iff.mpr (.inl (mapM_eq_error_of_first passed failed))⟩

/-! ### Registries that cannot be told apart -/

theorem alike_of_lookup (named : r.name = r'.name)
    (same : ∀ name, r.entries.lookup name = r'.entries.lookup name) : r.Alike r' := by
  have names : r.names = r'.names :=
    r.names_ascending.eq_of_mem_iff r'.names_ascending fun _ => by
      rw [mem_names_iff, mem_names_iff, same]
  have contains : ∀ name, r.contains name = r'.contains name := by
    intro name
    rw [Registry.contains, Registry.contains, same]
  have resolve : ∀ name, r.resolve name = r'.resolve name := by
    intro name
    rw [Registry.resolve, Registry.resolve, same, names, named]
  have construct : ∀ name a, r.construct name a = r'.construct name a := by
    intro name a
    rw [Registry.construct, Registry.construct, resolve]
  have step : Chain.compileStep r = Chain.compileStep r' := by
    funext step
    simp only [Chain.compileStep, construct]
  refine ⟨named, contains, resolve, construct, names, ?_, ?_⟩
  · unfold summary
    rw [named, contains, names]
  · intro source o
    simp only [Chain.compile, step, named]

theorem lookup_registerAll_congr
    (same : ∀ name, r.entries.lookup name = r'.entries.lookup name) (calls : List Call)
    (name : Option String) :
    (r.registerAll calls).entries.lookup name = (r'.registerAll calls).entries.lookup name := by
  induction calls generalizing r r' with
  | nil => exact same name
  | cons call calls ih =>
    refine ih fun other => ?_
    rw [lookup_register, lookup_register, same]

theorem name_registerAll (r : Registry) (calls : List Call) :
    (r.registerAll calls).name = r.name := by
  induction calls generalizing r with
  | nil => rfl
  | cons call calls ih => exact ih (r.register call.1 call.2)

/-- Calls under different names commute, whatever is registered after them. -/
theorem alike_registerAll_swap (r : Registry) {first second : Call}
    (different : first.1 ≠ second.1) (later : List Call) :
    (r.registerAll (first :: second :: later)).Alike (r.registerAll (second :: first :: later)) := by
  refine alike_of_lookup ?_ (lookup_registerAll_congr (fun name => ?_) later)
  · rw [name_registerAll, name_registerAll]
  · simp only [lookup_register]
    by_cases isFirst : name = first.1
    · rw [if_pos isFirst, if_neg (isFirst ▸ different), if_pos isFirst]
    · simp only [if_neg isFirst]

/-! ### What the calls determine -/

/-- A registry is a map in which the last call under a name counts. It has no constructor but those
of the calls, and lists their names. The order of calls under different names does not matter. A path
that is read and whose first steps are compiled fails at a step that no call has named, with a
message that shows all names and a bare key in place of the name that is not there. -/
theorem filled_last_wins (filled : r.Filled calls) :
    (∀ name, (∃ make, r.resolve name = .ok make) ↔ name ∈ calls.map Prod.fst) ∧
    (∀ name make, Fields.Last calls name make ↔ r.resolve name = .ok make) ∧
    (∀ name make, Fields.Last calls name make → ∀ a, r.construct name a = make a) ∧
    (∀ name, name ∉ calls.map Prod.fst →
      r.resolve name = .error (.unknownLookup name r.name r.names) ∧
        ∀ a, r.construct name a = .error (.unknownLookup name r.name r.names)) ∧
    r.names.Pairwise (· < ·) ∧
    (∀ name, name ∈ r.names ↔ some name ∈ calls.map Prod.fst) ∧
    (∀ first second : Call, first.1 ≠ second.1 → ∀ later,
      (r.registerAll (first :: second :: later)).Alike
        (r.registerAll (second :: first :: later))) ∧
    ∀ (source : String) (o : Options) before step after, o.registry = r →
      Path.read source = .ok (before ++ step :: after) →
      (∀ earlier ∈ before, ∃ s, Chain.compileStep r earlier = .ok s) →
      step.lookupName ∉ calls.map Prod.fst →
        ∃ e, Chain.compile source o = .error e ∧
          e = .unknownLookup step.lookupName r.name r.names ∧
          e.message = "`" ++ step.lookupName.getD "<bare key>" ++ "` lookup is not registered in `" ++
            r.name ++ "`; registered lookups are [" ++ ", ".intercalate r.names ++ "]" := by
  have holds := filled.holds
  have last : ∀ name make, Fields.Last calls name make ↔ r.resolve name = .ok make := by
    intro name make
    rw [resolve_eq_ok_iff, holds name make]
  refine ⟨fun name => ?_, last, ?_, ?_, r.names_ascending, fun name => ?_, ?_, ?_⟩
  · simp only [← last name, Fields.exists_last_iff]
  · intro name make called
    exact construct_of_resolve ((last name make).mp called)
  · intro name absent
    have absent := holds.lookup_eq_none_iff.mpr absent
    exact ⟨resolve_of_absent absent, construct_of_absent absent⟩
  · rw [mem_names_iff, ne_eq, holds.lookup_eq_none_iff, not_not]
  · exact fun _ _ => r.alike_registerAll_swap
  · rintro source o before step after rfl read passed absent
    have refused := compile_of_absent read passed (holds.lookup_eq_none_iff.mpr absent)
    exact ⟨_, refused, rfl, rfl⟩

/-- Bare keys and one of the built-ins replaced, that one twice, and a new name. -/
def harbourCalls : List Call :=
  [(some "find", fun a => .key <$> Key.ofArguments a), (none, fun _ => .ok (.key "berth")),
    (some "tide", fun _ => .ok (.cast .float)), (some "find", fun _ => .ok (.cast .int))]

/-- The last registration of `find` counts, and a path stops at its first unknown name. -/
theorem filled_last_wins_harbour :
    let r := (builtins "harbour").registerAll harbourCalls
    let calls := builtinCalls ++ harbourCalls
    r.Filled calls ∧ r.names = ["arith", "as_type", "find", "tide"] ∧
      (∀ a, r.construct (some "find") a = .ok (.cast .int)) ∧
      (∀ a, r.construct none a = .ok (.key "berth")) ∧
      ∃ e, Chain.compile "depth.<tide>.<moor:4>.<heave>" { registry := r } = .error e ∧
        e.message = "`moor` lookup is not registered in `harbour`; registered lookups are " ++
          "[arith, as_type, find, tide]" := by
  intro r calls
  have filled : r.Filled calls :=
    ((((Filled.builtins "harbour").register harbourCalls[0]).register harbourCalls[1]).register
      harbourCalls[2]).register harbourCalls[3]
  obtain ⟨-, -, last, -, -, -, -, refuses⟩ := filled_last_wins filled
  have names : r.names = ["arith", "as_type", "find", "tide"] := by decide +kernel
  refine ⟨filled, names, ?_, ?_, ?_⟩
  · exact last _ _ ⟨calls.dropLast, [], rfl, by simp⟩
  · exact last _ _ ⟨calls.take 5, calls.drop 6, rfl, by decide⟩
  · have read : Path.read "depth.<tide>.<moor:4>.<heave>" =
        .ok ([⟨"depth", .key "depth"⟩, ⟨"<tide>", .call "tide" {}⟩] ++
          ⟨"<moor:4>", .call "moor" { positional := ["4"] }⟩ :: [⟨"<heave>", .call "heave" {}⟩]) :=
      toOption_eq_some_iff.mp (by decide +kernel)
    have passed : ∀ earlier ∈ [⟨"depth", .key "depth"⟩, ⟨"<tide>", .call "tide" {}⟩],
        ∃ s, Chain.compileStep r earlier = .ok s := by
      simp only [List.forall_mem_cons, List.not_mem_nil, false_implies, implies_true, and_true]
      exact ⟨⟨_, rfl⟩, ⟨_, rfl⟩⟩
    obtain ⟨e, refused, -, message⟩ := refuses _ { registry := r } _ _ _ rfl read passed (by decide)
    refine ⟨e, refused, ?_⟩
    rw [message, names]
    rfl

end Registry

end Reshape
