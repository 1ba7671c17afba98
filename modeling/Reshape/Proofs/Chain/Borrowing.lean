import Reshape.Proofs.Chain.Direct

/-!
Chains of different registries on one table. The table knows a prefix by its text alone, so a chain
runs with the lookups of the first chain that had the prefix, and with its own where none had it.
-/

namespace Reshape.Chain

/-! ### Lookups of earlier chains -/

/-- The lookup of the step that completes a prefix. -/
def lookupAt? (c : Chain) (path : String) : Option Lookup :=
  (c.prefixes.findIdx? (· == path)).bind fun i => c.steps[i]?.map Step.lookup

/-- The lookup that completes the prefix in the first chain that has it. -/
def owner? (chains : List Chain) (path : String) : Option Lookup :=
  chains.findSome? (·.lookupAt? path)

/-- The chain, with the lookups of the first of the given chains that has the same prefix. -/
def borrow (c : Chain) (chains : List Chain) : Chain :=
  { c with
    steps := c.steps.mapIdx fun i step =>
      { step with lookup := (owner? chains (c.upTo (i + 1))).getD step.lookup } }

/-- The chains have the same lookup wherever they have a prefix in common. -/
def Agrees (c d : Chain) : Prop :=
  ∀ path l l', c.lookupAt? path = some l → d.lookupAt? path = some l' → l = l'

variable {c d : Chain} {chains : List Chain}

theorem exists_of_lookupAt?_eq_some (wellSpelled : c.WellSpelled) {path : String} {l : Lookup}
    (found : c.lookupAt? path = some l) :
    ∃ i step, c.steps[i]? = some step ∧ path = c.upTo (i + 1) ∧ step.lookup = l := by
  obtain ⟨i, first, own⟩ := Option.bind_eq_some_iff.mp found
  obtain ⟨step, at_, rfl⟩ := Option.map_eq_some_iff.mp own
  obtain ⟨bound, same, -⟩ := List.findIdx?_eq_some_iff_getElem.mp first
  refine ⟨i, step, at_, ?_, rfl⟩
  rw [← beq_iff_eq.mp same]
  simp only [prefixes_eq wellSpelled, List.getElem_map, List.getElem_range]

theorem lookupAt?_upTo (wellSpelled : c.WellSpelled) {i : Nat} {step : Step}
    (found : c.steps[i]? = some step) : c.lookupAt? (c.upTo (i + 1)) = some step.lookup := by
  obtain ⟨bound, -⟩ := List.getElem?_eq_some_iff.mp found
  have member := (mem_prefixes wellSpelled).mpr ⟨i, bound, rfl⟩
  have some_ : (c.prefixes.findIdx? (· == c.upTo (i + 1))).isSome := by
    rw [List.findIdx?_isSome, List.any_eq_true]
    exact ⟨_, member, beq_self_eq_true _⟩
  obtain ⟨j, first⟩ := Option.isSome_iff_exists.mp some_
  obtain ⟨bound', same, -⟩ := List.findIdx?_eq_some_iff_getElem.mp first
  simp only [prefixes_eq wellSpelled, List.getElem_map, List.getElem_range, beq_iff_eq,
    List.length_map, List.length_range] at same bound'
  obtain ⟨rfl, -⟩ := upTo_eq_iff wellSpelled wellSpelled bound' bound same
  rw [lookupAt?, first, Option.bind_some, found]
  rfl

theorem getElem?_borrow (c : Chain) (chains : List Chain) (i : Nat) :
    (c.borrow chains).steps[i]? = c.steps[i]?.map fun step =>
      { step with lookup := (owner? chains (c.upTo (i + 1))).getD step.lookup } :=
  List.getElem?_mapIdx ..

theorem texts_borrow (c : Chain) (chains : List Chain) : (c.borrow chains).texts = c.texts := by
  refine List.ext_getElem? fun i => ?_
  rw [texts, texts, List.getElem?_map, List.getElem?_map, getElem?_borrow, Option.map_map]
  rfl

theorem upTo_borrow (c : Chain) (chains : List Chain) (n : Nat) :
    (c.borrow chains).upTo n = c.upTo n := by
  rw [upTo, upTo, texts_borrow]

theorem WellSpelled.borrow (wellSpelled : c.WellSpelled) (chains : List Chain) :
    (c.borrow chains).WellSpelled := by
  obtain ⟨path, nonempty, wellFormed, texts⟩ := wellSpelled
  exact ⟨path, nonempty, wellFormed, (texts_borrow c chains).trans texts⟩

theorem length_borrow (c : Chain) (chains : List Chain) :
    (c.borrow chains).steps.length = c.steps.length := List.length_mapIdx

theorem exists_of_owner?_eq_some {path : String} {l : Lookup}
    (owned : owner? chains path = some l) : ∃ d ∈ chains, d.lookupAt? path = some l :=
  List.exists_of_findSome?_eq_some owned

theorem borrow_ignoresTable (wellSpelled : ∀ d ∈ chains, d.WellSpelled)
    (ignores : ∀ d ∈ chains, ∀ step ∈ d.steps, step.lookup.IgnoresTable)
    (own : ∀ step ∈ c.steps, step.lookup.IgnoresTable) :
    ∀ step ∈ (c.borrow chains).steps, step.lookup.IgnoresTable := by
  intro step member
  obtain ⟨i, found⟩ := List.mem_iff_getElem?.mp member
  rw [getElem?_borrow] at found
  obtain ⟨step', at_, rfl⟩ := Option.map_eq_some_iff.mp found
  cases owned : owner? chains (c.upTo (i + 1)) with
  | none => exact own step' (List.mem_of_getElem? at_)
  | some l =>
    obtain ⟨d, among, known⟩ := exists_of_owner?_eq_some owned
    obtain ⟨j, owning, place, -, rfl⟩ := exists_of_lookupAt?_eq_some (wellSpelled d among) known
    exact ignores d among owning (List.mem_of_getElem? place)

theorem borrow_eq_self (wellSpelled : c.WellSpelled) (agrees : ∀ d ∈ chains, d.Agrees c) :
    c.borrow chains = c := by
  have steps : (c.borrow chains).steps = c.steps := by
    refine List.ext_getElem? fun i => ?_
    rw [getElem?_borrow]
    cases found : c.steps[i]? with
    | none => rfl
    | some step =>
      have own := lookupAt?_upTo wellSpelled found
      cases owned : owner? chains (c.upTo (i + 1)) with
      | none => simp
      | some l =>
        obtain ⟨d, among, known⟩ := exists_of_owner?_eq_some owned
        rw [agrees d among _ l step.lookup known own]
        rfl
  exact congrArg (fun steps => { c with steps }) steps

/-- What comes later in a row has no say in what a chain borrows. -/
theorem borrow_append (wellSpelled : c.WellSpelled) (before rest : List Chain) :
    c.borrow (before ++ c :: rest) = c.borrow before := by
  have steps : (c.borrow (before ++ c :: rest)).steps = (c.borrow before).steps := by
    refine List.ext_getElem? fun i => ?_
    rw [getElem?_borrow, getElem?_borrow]
    cases found : c.steps[i]? with
    | none => rfl
    | some step =>
      have own := lookupAt?_upTo wellSpelled found
      simp only [owner?, List.findSome?_append, List.findSome?_cons, own, Option.map_some]
      cases before.findSome? (·.lookupAt? (c.upTo (i + 1))) <;> rfl
  exact congrArg (fun steps => { c with steps }) steps

theorem exists_owner? {path : String} {l : Lookup} (among : c ∈ chains)
    (own : c.lookupAt? path = some l) : ∃ l', owner? chains path = some l' := by
  rw [← Option.isSome_iff_exists, owner?, List.findSome?_isSome_iff]
  exact ⟨c, among, by rw [own]; rfl⟩

theorem coherent_borrow (wellSpelled : ∀ c ∈ chains, c.WellSpelled) :
    Coherent (chains.map (·.borrow chains)) := by
  intro c' member d' member' i bound j bound' same
  obtain ⟨c, among, rfl⟩ := List.mem_map.mp member
  obtain ⟨d, among', rfl⟩ := List.mem_map.mp member'
  rw [length_borrow] at bound bound'
  rw [upTo_borrow, upTo_borrow] at same
  obtain ⟨rfl, shorter⟩ := upTo_eq_iff (wellSpelled c among) (wellSpelled d among') bound bound' same
  have texts := take_texts_inj (wellSpelled c among) (wellSpelled d among') same
  refine List.ext_getElem? fun k => ?_
  rw [List.getElem?_take, List.getElem?_take]
  split
  · rename_i within
    have place := List.getElem?_eq_getElem (by omega : k < c.steps.length)
    have place' := List.getElem?_eq_getElem (by omega : k < d.steps.length)
    have raws := congrArg (·[k]?) texts
    simp only [List.getElem?_take, if_pos within, Chain.texts, List.getElem?_map, place, place',
      Option.map_some, Option.some.injEq] at raws
    obtain ⟨l, owned⟩ := exists_owner? among (lookupAt?_upTo (wellSpelled c among) place)
    rw [getElem?_borrow, getElem?_borrow, place, place', ← shorter k (by omega), owned,
      Option.map_some, Option.map_some, raws]
    rfl
  · rfl

/-! ### What a chain meets on the table -/

/-- Every prefix of the chain is in the table, or cannot be reached because an earlier one failed. -/
def Exhausts (t : Table) (c : Chain) : Prop :=
  ∀ i < c.steps.length, t.contains (c.upTo (i + 1)) ∨
    ∃ j < i, ∃ e, t.find? (c.upTo (j + 1)) = some (.error e)

theorem Exhausts.mono {t t' : Table} (exhausts : Exhausts t c)
    (kept : ∀ path stored, t.find? path = some stored → t'.find? path = some stored) :
    Exhausts t' c := by
  intro i bound
  rcases exhausts i bound with known | ⟨j, earlier, e, failed⟩
  · obtain ⟨stored, found⟩ := Table.contains_iff.mp known
    exact .inl (Table.contains_iff.mpr ⟨stored, kept _ _ found⟩)
  · exact .inr ⟨j, earlier, e, kept _ _ failed⟩

theorem exhausts_runSteps (wellSpelled : c.WellSpelled) {scope : Scope} {t t' : Table}
    {given : Except (String × LookupError) Json} (before : List Step) {rest : List Step}
    {node : Json} (split : c.steps = before ++ rest)
    (ignores : ∀ step ∈ rest, step.lookup.IgnoresTable)
    (known : ∀ i < before.length, t.contains (c.upTo (i + 1)))
    (run : runSteps scope rest (c.upTo before.length) node t = (given, t'))
    (present : ∀ text key, given ≠ .error (text, .missingMemo key)) : Exhausts t' c := by
  induction rest generalizing before node t with
  | nil =>
    obtain ⟨-, rfl⟩ := Prod.mk.inj run
    rw [List.append_nil] at split
    exact fun i bound => .inl (known i (split ▸ bound))
  | cons step rest ih =>
    rw [List.forall_mem_cons] at ignores
    rw [runSteps, extendPrefix_upTo wellSpelled split] at run
    cases first : runStep scope step (c.upTo (before.length + 1)) node t with
    | mk outcome left =>
      rw [first] at run
      have kept : ∀ i < before.length, left.contains (c.upTo (i + 1)) := by
        intro i bound
        have held := contains_runStep ignores.1.keepsEntries scope (c.upTo (before.length + 1)) node
          (known i bound)
        rwa [first] at held
      cases outcome with
      | ok node' =>
        have next : c.steps = (before ++ [step]) ++ rest := by simpa using split
        refine ih (before ++ [step]) next ignores.2 (fun i bound => ?_) (by simpa using run)
        rw [List.length_append, List.length_singleton] at bound
        rcases Nat.lt_succ_iff_lt_or_eq.mp bound with earlier | rfl
        · exact kept i earlier
        · exact Table.contains_iff.mpr ⟨_, find?_runStep_self first (by simp)⟩
      | error cause =>
        -- The failure is stored, and it keeps the rest of the steps from being reached.
        obtain ⟨rfl, rfl⟩ := Prod.mk.inj run
        have failed := find?_runStep_self first fun key missing =>
          present step.raw key (by rw [Except.error.inj missing])
        intro i _
        rcases Nat.lt_trichotomy i before.length with earlier | rfl | later
        · exact .inl (kept i earlier)
        · exact .inl (Table.contains_iff.mpr ⟨_, failed⟩)
        · exact .inr ⟨before.length, later, cause, failed⟩

theorem exhausts_evaluate (wellSpelled : c.WellSpelled)
    (ignores : ∀ step ∈ c.steps, step.lookup.IgnoresTable) {scope : Scope} {data : Json}
    {t : Table} {outcome : Outcome} (passed : (c.evaluate scope data t).1 = .ok outcome) :
    Exhausts (c.evaluate scope data t).2 c := by
  cases run : runSteps scope c.steps "" data t with
  | mk given left =>
    have same : (c.evaluate scope data t).2 = left := by
      rw [evaluate, run]
      cases given <;> rfl
    rw [same]
    refine exhausts_runSteps wellSpelled [] rfl ignores (by simp)
      (by rwa [List.length_nil, upTo_zero]) fun text key missing => ?_
    rw [evaluate, run, missing] at passed
    cases passed

/-- Where a chain would borrow a lookup, the table has the outcome already. -/
theorem runStep_borrow (wellSpelled : c.WellSpelled) (spelled : ∀ d ∈ chains, d.WellSpelled)
    {t : Table} (exhausted : ∀ d ∈ chains, Exhausts t d) {n : Nat} (bound : n < c.steps.length)
    (passed : ∀ i < n, ∃ v, t.find? (c.upTo (i + 1)) = some (.ok v)) (scope : Scope) (step : Step)
    (node : Json) :
    runStep scope { step with lookup := (owner? chains (c.upTo (n + 1))).getD step.lookup }
      (c.upTo (n + 1)) node t = runStep scope step (c.upTo (n + 1)) node t := by
  cases owned : owner? chains (c.upTo (n + 1)) with
  | none => rfl
  | some l =>
    obtain ⟨d, among, known⟩ := exists_of_owner?_eq_some owned
    obtain ⟨j, _, place, same, -⟩ := exists_of_lookupAt?_eq_some (spelled d among) known
    obtain ⟨bound', -⟩ := List.getElem?_eq_some_iff.mp place
    obtain ⟨rfl, shorter⟩ := upTo_eq_iff wellSpelled (spelled d among) bound bound' same
    rcases exhausted d among n bound' with held | ⟨k, earlier, e, failed⟩
    · obtain ⟨stored, found⟩ := Table.contains_iff.mp held
      rw [← same] at found
      rw [runStep_of_find? found, runStep_of_find? found]
    -- A shorter prefix that failed would have stopped this chain as well.
    · obtain ⟨v, found⟩ := passed k earlier
      rw [shorter k earlier.le, failed] at found
      cases found

theorem runSteps_borrow (wellSpelled : c.WellSpelled) (spelled : ∀ d ∈ chains, d.WellSpelled)
    {t : Table} (exhausted : ∀ d ∈ chains, Exhausts t d) (scope : Scope) (node : Json)
    (before : List Step) {rest : List Step} (split : c.steps = before ++ rest)
    (ignores : ∀ step ∈ rest, step.lookup.IgnoresTable)
    (passed : ∀ i < before.length, ∃ v, t.find? (c.upTo (i + 1)) = some (.ok v)) :
    runSteps scope ((c.borrow chains).steps.drop before.length) (c.upTo before.length) node t =
      runSteps scope rest (c.upTo before.length) node t := by
  induction rest generalizing before node t with
  | nil =>
    have all : (c.borrow chains).steps.length = before.length := by
      rw [length_borrow, split, List.append_nil]
    rw [← all, List.drop_length]
  | cons step rest ih =>
    rw [List.forall_mem_cons] at ignores
    have next : c.steps = (before ++ [step]) ++ rest := by simpa using split
    have longer : (before ++ [step]).length = before.length + 1 := by simp
    have place : c.steps[before.length]? = some step := by simp [split]
    have bound : before.length < c.steps.length := by simp [split]
    have extended := extendPrefix_upTo wellSpelled split
    rw [List.drop_eq_getElem?_toList_append, getElem?_borrow, place, Option.map_some,
      Option.toList_some, List.singleton_append, runSteps, runSteps]
    simp only [extended]
    rw [runStep_borrow wellSpelled spelled exhausted bound passed scope step node]
    cases first : runStep scope step (c.upTo (before.length + 1)) node t with
    | mk outcome left =>
      have kept : ∀ path stored, t.find? path = some stored → left.find? path = some stored := by
        intro path stored held
        have still := find?_runStep ignores.1 scope (c.upTo (before.length + 1)) node held
        rwa [first] at still
      cases outcome with
      | error cause => rfl
      | ok node' =>
        have later := ih (fun d among => (exhausted d among).mono kept) node' (before ++ [step]) next
          ignores.2 fun i within => ?_
        · rwa [longer] at later
        · rw [longer] at within
          rcases Nat.lt_succ_iff_lt_or_eq.mp within with earlier | rfl
          · obtain ⟨v, found⟩ := passed i earlier
            exact ⟨v, kept _ _ found⟩
          · exact ⟨node', find?_runStep_self first (by simp)⟩

/-- A chain runs with the lookups that it borrows from those that did not fail before it. -/
theorem evaluate_borrow (wellSpelled : c.WellSpelled) (spelled : ∀ d ∈ chains, d.WellSpelled)
    (ignores : ∀ step ∈ c.steps, step.lookup.IgnoresTable) {t : Table}
    (exhausted : ∀ d ∈ chains, Exhausts t d) (scope : Scope) (data : Json) :
    (c.borrow chains).evaluate scope data t = c.evaluate scope data t := by
  have same := runSteps_borrow wellSpelled spelled exhausted scope data [] rfl ignores
    (by simp)
  rw [List.length_nil, upTo_zero, List.drop_zero] at same
  rw [evaluate, evaluate, same]
  rfl

end Reshape.Chain
