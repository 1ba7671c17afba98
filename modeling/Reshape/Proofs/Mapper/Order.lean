import Reshape.Proofs.Mapper.Direct
import Reshape.Proofs.Plan.Order

/-!
The order of declaration is the order of keys in what a mapper gives, and nothing else. Another order
fills the tables in another way and lets other chains reuse prefixes, but a call without tables
shows that the outcomes of the chains are the same.
-/

namespace Reshape

/-! ### Values -/

mutual

/-- Equality up to the order of the keys of objects, at any depth. -/
inductive Json.Reorders : Json → Json → Prop
  | same (v : Json) : Reorders v v
  | array {items items' : List Json} :
      Json.ItemsReorder items items' → Reorders (.array items) (.array items')
  | object {fields fields' : List (String × Json)} :
      Fields.Reorders Json.Reorders fields fields' → Reorders (.object fields) (.object fields')

inductive Json.ItemsReorder : List Json → List Json → Prop
  | nil : ItemsReorder [] []
  | cons {v v' : Json} {rest rest' : List Json} :
      Json.Reorders v v' → ItemsReorder rest rest' → ItemsReorder (v :: rest) (v' :: rest')

end

theorem Json.ItemsReorder.of_forall₂ {items items' : List Json}
    (each : List.Forall₂ Json.Reorders items items') : Json.ItemsReorder items items' := by
  induction each with
  | nil => exact .nil
  | cons first _ ih => exact .cons first ih

/-- Equality of outcomes up to the order of keys. -/
inductive Outcome.Reorders : Outcome → Outcome → Prop
  | value {v v' : Json} : v.Reorders v' → Reorders (.value v) (.value v')
  | skipped : Reorders .skipped .skipped

theorem Outcome.Reorders.refl (outcome : Outcome) : outcome.Reorders outcome := by
  cases outcome with
  | value v => exact .value (.same v)
  | skipped => exact .skipped

namespace Mapper

/-! ### Assembly -/

variable {outcomes : Scope → Chain → Except EvalError Outcome}

theorem keys_assembleEntries {scope : Scope} {entries : List (String × Node)}
    {fields : List (String × Json)} (h : assembleEntries outcomes scope entries = .ok fields) :
    (fields.map Prod.fst).Sublist (entries.map Prod.fst) := by
  induction entries generalizing fields with
  | nil =>
    obtain rfl := Except.ok.inj h
    exact .slnil
  | cons entry rest ih =>
    simp only [assembleEntries, bind_eq_ok_iff, pure_eq_ok_iff] at h
    obtain ⟨outcome, -, fields, later, rfl⟩ := h
    cases outcome with
    | value v => exact (ih later).cons_cons entry.1
    | skipped => exact (ih later).cons entry.1

theorem addEntry_reorders (key : String) {outcome outcome' : Outcome}
    {fields fields' : List (String × Json)} (first : outcome.Reorders outcome')
    (rest : Fields.Reorders Json.Reorders fields fields') :
    Fields.Reorders Json.Reorders (addEntry key outcome fields) (addEntry key outcome' fields') := by
  cases first with
  | value related => exact .cons key related rest
  | skipped => exact rest

theorem addEntry_swap (key key' : String) (outcome outcome' : Outcome)
    (fields : List (String × Json)) :
    Fields.Reorders Json.Reorders (addEntry key outcome (addEntry key' outcome' fields))
      (addEntry key' outcome' (addEntry key outcome fields)) := by
  cases outcome with
  | skipped => exact .refl .same _
  | value v =>
    cases outcome' with
    | skipped => exact .refl .same _
    | value v' => exact .swap (key, v) (key', v') fields

mutual

theorem assembleNode_reorders (scope : Scope) {node node' : Node} (h : node.Reorders node') :
    Agree Outcome.Reorders (assembleNode outcomes scope node)
      (assembleNode outcomes scope node') := by
  match h with
  | .same _ => exact .refl .refl _
  | .nested once entries =>
    rw [assembleNode, assembleNode]
    refine (assembleEntries_reorders scope entries).bind fun fields fields' given related => ?_
    have distinct := once.sublist (keys_assembleEntries given)
    exact .ok (.value (.object (related.collect distinct)))
  | .list root once entries =>
    rw [assembleNode, assembleNode]
    refine (Agree.refl (fun _ => rfl) (outcomes scope root)).bind fun outcome _ _ same => ?_
    subst same
    refine (Agree.refl (fun _ => rfl) (listElements root outcome)).bind fun items _ _ same => ?_
    subst same
    cases items with
    | none => exact .ok .skipped
    | some items =>
      have element : ∀ item, Agree Json.Reorders _ _ := fun item =>
        (assembleEntries_reorders { scope with root := item } entries).map
          fun fields fields' given related =>
            .object (related.collect (once.sublist (keys_assembleEntries given)))
      exact (Agree.mapM element items).bind fun _ _ _ each =>
        .ok (.value (.array (.of_forall₂ each)))
  | .sequence items =>
    rw [assembleNode, assembleNode]
    refine (assembleItems_reorders scope items).bind fun values values' _ related => ?_
    cases related with
    | none => exact .ok .skipped
    | some related => exact .ok (.value (.array related))

theorem assembleEntries_reorders (scope : Scope) {entries entries' : List (String × Node)}
    (h : Fields.Reorders Node.Reorders entries entries') :
    Agree (Fields.Reorders Json.Reorders) (assembleEntries outcomes scope entries)
      (assembleEntries outcomes scope entries') := by
  match h with
  | .nil => exact .ok .nil
  | .cons key first rest =>
    rw [assembleEntries, assembleEntries]
    refine (assembleNode_reorders scope first).bind fun outcome outcome' _ related => ?_
    refine (assembleEntries_reorders scope rest).bind fun fields fields' _ later => ?_
    exact .ok (addEntry_reorders key related later)
  | .swap (key, node) (key', node') rest =>
    -- Whichever node fails, both orders fail.
    simp only [assembleEntries]
    cases assembleNode outcomes scope node with
    | error e =>
      cases assembleNode outcomes scope node' with
      | error e' => exact .error e e'
      | ok outcome' => exact .error e e
    | ok outcome =>
      cases assembleNode outcomes scope node' with
      | error e' => exact .error e' e'
      | ok outcome' =>
        cases assembleEntries outcomes scope rest with
        | error e => exact .error e e
        | ok fields => exact .ok (addEntry_swap key key' outcome outcome' fields)
  | .trans first later =>
    exact (assembleEntries_reorders scope first).trans (assembleEntries_reorders scope later)
      fun _ _ _ => .trans

theorem assembleItems_reorders (scope : Scope) {items items' : List Node}
    (h : Node.ItemsReorder items items') :
    Agree (Option.Rel Json.ItemsReorder) (assembleItems outcomes scope items)
      (assembleItems outcomes scope items') := by
  match h with
  | .nil => exact .ok (.some .nil)
  | .cons first rest =>
    rw [assembleItems, assembleItems]
    refine (assembleNode_reorders scope first).bind fun outcome outcome' _ related => ?_
    cases related with
    | skipped => exact .ok .none
    | value related =>
      refine (assembleItems_reorders scope rest).bind fun values values' _ later => ?_
      cases later with
      | none => exact .ok .none
      | some later => exact .ok (.some (.cons related later))

end

theorem assemble_reorders {p p' : Plan} (once : (p.map Prod.fst).Nodup)
    (h : Fields.Reorders Node.Reorders p p') (data context : Json) :
    Agree Json.Reorders (assemble outcomes p data context) (assemble outcomes p' data context) := by
  refine (assembleEntries_reorders ⟨data, data, context⟩ h).bind fun fields fields' given related => ?_
  have distinct := once.sublist (keys_assembleEntries given)
  exact .ok (.object (related.collect distinct))

/-! ### Mappers -/

theorem evaluate_ofPlan_eq_direct {p : Plan} {r : Registry}
    (uniform : ∀ c ∈ p.chains, c.CompiledWith r)
    (ignores : ∀ c ∈ p.chains, ∀ step ∈ c.steps, step.lookup.IgnoresTable) (optimize : Bool)
    (data context : Json) :
    ((ofPlan optimize p).evaluate data context).map Prod.fst = direct p data context := by
  have wellSpelled : ∀ c ∈ p.chains, c.WellSpelled :=
    fun c member => (uniform c member).compiled.wellSpelled
  have shareable : ∀ c ∈ p.chains, Shareable c := fun c member =>
    ⟨wellSpelled c member, fun step among => (ignores c member step among).keepsEntries⟩
  rw [evaluate_ofPlan shareable]
  exact evaluate_eq_assemble fun l member =>
    each_direct (Chain.coherent_of_compiledWith uniform)
      (fun c among => mem_chains_of_mem_ledgers member among) wellSpelled ignores l.scope

/-- The mappers of one template of paths only, its entries declared in two orders, give values that
are equal up to the order of keys, or both fail. -/
theorem compile_reorders {o : Options} {template template' : Template} {p : Plan}
    (inherited : template.chains = []) (distinct : template.DistinctKeys)
    (reorders : template.Reorders template') (compiled : Plan.ofTemplate o template = .ok p)
    (builtin : ∀ c ∈ p.chains, ∀ step ∈ c.steps, step.lookup.IsBuiltin) :
    ∃ m m', compile template o = .ok m ∧ compile template' o = .ok m' ∧
      ∀ data context, Agree Json.Reorders ((m.evaluate data context).map Prod.fst)
        ((m'.evaluate data context).map Prod.fst) := by
  obtain ⟨p', compiled', once, related⟩ := Plan.ofTemplate_reorders reorders distinct compiled
  have uniform := Plan.compiledWith_of_ofTemplate inherited compiled
  have ignores : ∀ c ∈ p.chains, ∀ step ∈ c.steps, step.lookup.IgnoresTable :=
    fun c member step among => (builtin c member step among).ignoresTable
  -- The other plan has the same chains, so the same holds of them.
  have among : ∀ c ∈ Plan.chains p', c ∈ p.chains :=
    fun c member => (Node.entriesChains_of_reorders related).mem_iff.mpr member
  refine ⟨ofPlan o.optimize p, ofPlan o.optimize p', ?_, ?_, fun data context => ?_⟩
  · exact (compile_eq_map template o o.optimize).trans (by rw [compiled]; rfl)
  · exact (compile_eq_map template' o o.optimize).trans (by rw [compiled']; rfl)
  · rw [evaluate_ofPlan_eq_direct uniform ignores,
      evaluate_ofPlan_eq_direct (fun c member => uniform c (among c member))
        (fun c member => ignores c (among c member))]
    exact assemble_reorders once related data context

/-- A sequence between two paths, and a list, each with a mapping inside. -/
def harbour : Template :=
  .mapping [("name", .expression "port.name"),
    ("berths", .sequence [.expression "port.berths.0",
      .mapping [("x", .expression "at.x"), ("y", .expression "at.y")]]),
    ("boats", .list (.expression "port.boats")
      (.mapping [("owner", .expression "by.name"), ("since", .expression "by.year.<as_type:int>")]))]

/-- The entries of all mappings in reverse. -/
def harbourReversed : Template :=
  .mapping [("boats", .list (.expression "port.boats")
      (.mapping [("since", .expression "by.year.<as_type:int>"), ("owner", .expression "by.name")])),
    ("berths", .sequence [.expression "port.berths.0",
      .mapping [("y", .expression "at.y"), ("x", .expression "at.x")]]),
    ("name", .expression "port.name")]

/-- The paths that start from a shared prefix. -/
def reusing (m : Mapper) : List String :=
  (m.plan.chains.filter Chain.hasMemo).map Chain.source

theorem compile_reorders_harbour :
    harbour.chains = [] ∧ harbour.DistinctKeys ∧ harbour.Reorders harbourReversed ∧
      ∃ p, Plan.ofTemplate {} harbour = .ok p ∧
        (∀ c ∈ p.chains, ∀ step ∈ c.steps, step.lookup.IsBuiltin) ∧
        ∃ m m', compile harbour {} = .ok m ∧ compile harbourReversed {} = .ok m' ∧
          m.reusing = ["port.berths.0", "at.y", "port.boats", "by.year.<as_type:int>"] ∧
          m'.reusing = ["by.name", "port.berths.0", "at.x", "port.name"] ∧
          ∀ data context, Agree Json.Reorders ((m.evaluate data context).map Prod.fst)
            ((m'.evaluate data context).map Prod.fst) := by
  have inherited : harbour.chains = [] := rfl
  have distinct : harbour.DistinctKeys := by
    simp [harbour, Template.DistinctKeys, Template.entriesDistinct, Template.itemsDistinct]
  have reversed : harbour.Reorders harbourReversed := by
    have turned (entries : List (String × Template)) :
        Fields.Reorders Template.Reorders entries entries.reverse :=
      .of_perm .same entries.reverse_perm.symm
    refine .mapping (.trans (turned _) (.cons "boats" ?_ (.cons "berths" ?_ (.refl .same _))))
    · exact .list _ (.mapping (turned _))
    · exact .sequence (.cons (.same _) (.cons (.mapping (turned _)) .nil))
  have first : (compile harbour {}).toOption.map reusing =
      some ["port.berths.0", "at.y", "port.boats", "by.year.<as_type:int>"] := by decide +kernel
  have second : (compile harbourReversed {}).toOption.map reusing =
      some ["by.name", "port.berths.0", "at.x", "port.name"] := by decide +kernel
  cases compiled : Plan.ofTemplate {} harbour with
  | error e =>
    rw [compile, compiled] at first
    cases first
  | ok p =>
    have uniform := Plan.compiledWith_of_ofTemplate inherited compiled
    have builtin : ∀ c ∈ p.chains, ∀ step ∈ c.steps, step.lookup.IsBuiltin :=
      fun c member step among => Registry.isBuiltin_of_makes ((uniform c member).makes step among)
    obtain ⟨m, m', compiled', compiled'', agree⟩ :=
      compile_reorders inherited distinct reversed compiled builtin
    rw [compiled'] at first
    rw [compiled''] at second
    exact ⟨inherited, distinct, reversed, p, rfl, builtin, m, m', compiled', compiled'',
      Option.some.inj first, Option.some.inj second, agree⟩

end Mapper

end Reshape
