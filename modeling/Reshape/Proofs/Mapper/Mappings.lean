import Reshape.Json.Equality
import Reshape.Proofs.Fields
import Reshape.Proofs.Mapper.Lists

/-!
Output mappings: which keys a mapping has, with which values and in which order, when entries are
skipped and keys repeat. A key takes its place from the first of its entries that has a value, and
its value from the last.
-/

namespace Reshape

def Outcome.isValue : Outcome → Bool
  | .value _ => true
  | .skipped => false

/-! ### Outcomes gathered -/

/-- The number of the first entry of a key that is not skipped. -/
def firstAt (outcomes : List (String × Outcome)) (key : String) : Nat :=
  outcomes.findIdx fun entry => entry.1 == key && entry.2.isValue

/-- The last entry of a key that is not skipped has this value. -/
def LastValue (outcomes : List (String × Outcome)) (key : String) (v : Json) : Prop :=
  ∃ before after, outcomes = before ++ (key, .value v) :: after ∧
    ∀ outcome, (key, outcome) ∈ after → outcome = .skipped

/-- Fields hold what the outcomes of a mapping's entries say. -/
structure Gathers (outcomes : List (String × Outcome)) (fields : List (String × Json)) : Prop where
  keys : ∀ key, key ∈ fields.map Prod.fst ↔ ∃ v, (key, .value v) ∈ outcomes
  values : ∀ key v, fields.lookup key = some v ↔ LastValue outcomes key v
  order : (fields.map Prod.fst).Pairwise fun a b => firstAt outcomes a < firstAt outcomes b

variable {outcomes : List (String × Outcome)} {fields : List (String × Json)} {key : String}
  {v : Json}

theorem lastValue_concat_iff (last : String × Outcome) :
    LastValue (outcomes ++ [last]) key v ↔
      last = (key, .value v) ∨ (last.1 = key → last.2 = .skipped) ∧ LastValue outcomes key v := by
  constructor
  · rintro ⟨before, after, split, skipped⟩
    rcases List.eq_nil_or_concat after with rfl | ⟨after, entry, rfl⟩
    · exact .inl (List.singleton_inj.mp (List.append_inj' split rfl).2)
    · rw [List.concat_eq_append, ← List.cons_append, ← List.append_assoc] at split
      obtain ⟨front, same⟩ := List.append_inj' split rfl
      obtain rfl := List.singleton_inj.mp same
      refine .inr ⟨?_, before, after, front, fun outcome member => skipped outcome ?_⟩
      · rintro rfl
        exact skipped last.2 (by simp)
      · simp [member]
  · rintro (rfl | ⟨skips, before, after, rfl, skipped⟩)
    · exact ⟨outcomes, [], rfl, by simp⟩
    · refine ⟨before, after ++ [last], by simp, fun outcome member => ?_⟩
      rcases List.mem_append.mp member with member | member
      · exact skipped outcome member
      · obtain rfl := List.mem_singleton.mp member
        exact skips rfl

namespace Gathers

theorem nil : Gathers [] [] := ⟨by simp, by simp [LastValue], .nil⟩

theorem firstAt_lt (gathers : Gathers outcomes fields) (member : key ∈ fields.map Prod.fst) :
    firstAt outcomes key < outcomes.length := by
  obtain ⟨v, among⟩ := (gathers.keys key).mp member
  exact List.findIdx_lt_length_of_exists ⟨_, among, by simp [Outcome.isValue]⟩

/-- A further entry does not move a key that is there. -/
theorem firstAt_concat (gathers : Gathers outcomes fields) (member : key ∈ fields.map Prod.fst)
    (entry : String × Outcome) : firstAt (outcomes ++ [entry]) key = firstAt outcomes key := by
  have found := gathers.firstAt_lt member
  rw [firstAt, List.findIdx_append]
  exact if_pos found

theorem order_concat (gathers : Gathers outcomes fields) (entry : String × Outcome) :
    (fields.map Prod.fst).Pairwise fun a b =>
      firstAt (outcomes ++ [entry]) a < firstAt (outcomes ++ [entry]) b := by
  refine List.Pairwise.imp_of_mem (fun first later less => ?_) gathers.order
  rwa [gathers.firstAt_concat first, gathers.firstAt_concat later]

theorem skip (gathers : Gathers outcomes fields) (key : String) :
    Gathers (outcomes ++ [(key, .skipped)]) fields := by
  refine ⟨fun other => ?_, fun other v => ?_, gathers.order_concat _⟩
  · simp [gathers.keys]
  · simp [gathers.values, lastValue_concat_iff]

/-- A new key stands behind all others. -/
theorem firstAt_concat_new (gathers : Gathers outcomes fields) (absent : key ∉ fields.map Prod.fst)
    (v : Json) : firstAt (outcomes ++ [(key, .value v)]) key = outcomes.length := by
  have missing : ¬ firstAt outcomes key < outcomes.length := by
    intro found
    obtain ⟨entry, member, same⟩ := List.findIdx_lt_length.mp found
    obtain ⟨other, _ | w⟩ := entry
    · obtain ⟨rfl, -⟩ : other = key ∧ _ := by simpa using same
      exact absent ((gathers.keys _).mpr ⟨_, member⟩)
    · simp [Outcome.isValue] at same
  rw [firstAt, List.findIdx_append]
  refine (if_neg missing).trans ?_
  simp [Outcome.isValue, List.findIdx_cons]

theorem write (gathers : Gathers outcomes fields) (key : String) (v : Json) :
    Gathers (outcomes ++ [(key, .value v)]) (Fields.insert key v fields) := by
  have order := gathers.order_concat (key, .value v)
  constructor
  case keys =>
    intro other
    have held : other ∈ (Fields.insert key v fields).map Prod.fst ↔
        other ∈ fields.map Prod.fst ∨ other = key := by
      rw [Fields.keys_insert]
      split
      · next present => exact ⟨.inl, fun member => member.elim id (· ▸ present)⟩
      · simp
    rw [held, gathers.keys]
    constructor
    · rintro (⟨w, member⟩ | rfl)
      · exact ⟨w, List.mem_append_left _ member⟩
      · exact ⟨v, by simp⟩
    · rintro ⟨w, member⟩
      rcases List.mem_append.mp member with member | member
      · exact .inl ⟨w, member⟩
      · exact .inr (Prod.mk.inj (List.mem_singleton.mp member)).1
  case values =>
    intro other w
    rw [Fields.lookup_insert, lastValue_concat_iff]
    by_cases same : other = key
    · simp [same]
    · simp [same, Ne.symm same, gathers.values]
  case order =>
    rw [Fields.keys_insert]
    split
    · exact order
    · next absent =>
      refine List.pairwise_append.mpr ⟨order, List.pairwise_singleton _ _, ?_⟩
      rintro other among _ member
      obtain rfl := List.mem_singleton.mp member
      rw [gathers.firstAt_concat among, gathers.firstAt_concat_new absent]
      exact gathers.firstAt_lt among

end Gathers

/-- The values among outcomes, under their keys. -/
def written : List (String × Outcome) → List (String × Json)
  | [] => []
  | (key, outcome) :: rest => Mapper.addEntry key outcome (written rest)

theorem gathers_collect (outcomes : List (String × Outcome)) :
    Gathers outcomes (Fields.collect (written outcomes)) := by
  -- Induction on the entries that are left; those before them have been gathered.
  suffices gathered : ∀ before fields, Gathers before fields → Gathers (before ++ outcomes)
      ((written outcomes).foldl (fun fields pair => Fields.insert pair.1 pair.2 fields) fields) from
    gathered [] [] .nil
  induction outcomes with
  | nil => exact fun before fields gathers => by rwa [List.append_nil]
  | cons entry rest ih =>
    obtain ⟨key, outcome⟩ := entry
    intro before fields gathers
    rw [List.append_cons]
    cases outcome with
    | skipped => exact ih _ _ (gathers.skip key)
    | value v => exact ih _ _ (gathers.write key v)

namespace Mapper

/-! ### Entries in turn -/

/-- The outcomes of entries, each on the run that the one before has left. -/
inductive Outcomes (scope : Scope) :
    Run → List (String × Node) → List (String × Outcome) → Run → Prop
  | nil (r : Run) : Outcomes scope r [] [] r
  | cons {r r₁ r₂ : Run} (key : String) {node : Node} {outcome : Outcome}
      {rest : List (String × Node)} {later : List (String × Outcome)} :
      evaluateNode scope r node = .ok (outcome, r₁) → Outcomes scope r₁ rest later r₂ →
        Outcomes scope r ((key, node) :: rest) ((key, outcome) :: later) r₂

/-- The value is the object that gathers the outcomes of the entries. -/
def MapsTo (scope : Scope) (r : Run) (entries : List (String × Node)) (v : Json) (r' : Run) :
    Prop :=
  ∃ outcomes fields, Outcomes scope r entries outcomes r' ∧ v = .object fields ∧
    Gathers outcomes fields

theorem exists_outcomes {scope : Scope} {r r' : Run} {entries : List (String × Node)}
    {fields : List (String × Json)} (h : evaluateEntries scope r entries = .ok (fields, r')) :
    ∃ outcomes, Outcomes scope r entries outcomes r' ∧ fields = written outcomes := by
  induction entries generalizing r fields with
  | nil =>
    obtain ⟨rfl, rfl⟩ := Prod.mk.inj (Except.ok.inj h)
    exact ⟨[], .nil r, rfl⟩
  | cons entry rest ih =>
    obtain ⟨key, node⟩ := entry
    obtain ⟨outcome, r₁, later, run, runRest, rfl⟩ := evaluateEntries_cons_eq_ok h
    obtain ⟨outcomes, turns, rfl⟩ := ih runRest
    exact ⟨(key, outcome) :: outcomes, .cons key run turns, rfl⟩

theorem mapsTo_of_evaluateEntries {scope : Scope} {r r' : Run} {entries : List (String × Node)}
    {fields : List (String × Json)} (h : evaluateEntries scope r entries = .ok (fields, r')) :
    MapsTo scope r entries (.object (Fields.collect fields)) r' := by
  obtain ⟨outcomes, turns, rfl⟩ := exists_outcomes h
  exact ⟨outcomes, _, turns, rfl, gathers_collect outcomes⟩

/-! ### Skipped nodes -/

/-- What is skipped: a chain that skips, a list whose root skips or gives no list and would skip,
and a sequence with such an element after elements that have values. Constants and mappings never
are. -/
inductive Skips (scope : Scope) : Run → Node → Prop
  | expression {r : Run} {c : Chain} :
      (c.evaluate scope scope.root r.table).1 = .ok .skipped → Skips scope r (.expression c)
  | root {r : Run} {root : Chain} (entries : List (String × Node)) :
      (root.evaluate scope scope.root r.table).1 = .ok .skipped → Skips scope r (.list root entries)
  | noList {r : Run} {root : Chain} {v : Json} (entries : List (String × Node)) :
      (root.evaluate scope scope.root r.table).1 = .ok (.value v) → elements? v = none →
        root.failMode = .skip → Skips scope r (.list root entries)
  | element {r r' : Run} {before : List Node} {node : Node} {values : List Json}
      (after : List Node) :
      evaluateItems scope r before = .ok (some values, r') → Skips scope r' node →
        Skips scope r (.sequence (before ++ node :: after))

theorem listElements_eq_none_iff {root : Chain} {outcome : Outcome} :
    listElements root outcome = .ok none ↔
      outcome = .skipped ∨
        ∃ v, outcome = .value v ∧ elements? v = none ∧ root.failMode = .skip := by
  cases outcome with
  | skipped => exact iff_of_true rfl (.inl rfl)
  | value v =>
    cases kind : elements? v with
    | some items => simp [listElements, kind]
    | none =>
      rw [listElements_eq_substitute kind, substitute_eq_none_iff]
      simp [kind]

mutual

theorem skips_of_evaluateNode {scope : Scope} {r r' : Run} {node : Node}
    (h : evaluateNode scope r node = .ok (.skipped, r')) : Skips scope r node := by
  match node with
  | .constant v => cases h
  | .expression c => exact .expression (runChain_eq_ok h).1
  | .nested entries =>
    obtain ⟨_, -, never⟩ := evaluateNode_nested_eq_ok h
    cases never
  | .list root entries =>
    obtain ⟨given, r₁, run, ⟨none, -, -⟩ | ⟨_, _, -, -, never, -⟩⟩ := evaluateNode_list_eq_ok h
    · rcases listElements_eq_none_iff.mp none with rfl | ⟨v, rfl, noList, mode⟩
      · exact .root entries (runChain_eq_ok run).1
      · exact .noList entries (runChain_eq_ok run).1 noList mode
    · cases never
  | .sequence items =>
    obtain ⟨values, run, same⟩ := evaluateNode_sequence_eq_ok h
    cases values with
    | some values => cases same
    | none =>
      obtain ⟨before, node, after, values, r₁, rfl, front, skips⟩ := skips_of_evaluateItems run
      exact .element after front skips

theorem skips_of_evaluateItems {scope : Scope} {r r' : Run} {items : List Node}
    (h : evaluateItems scope r items = .ok (none, r')) :
    ∃ before node after values r₁, items = before ++ node :: after ∧
      evaluateItems scope r before = .ok (some values, r₁) ∧ Skips scope r₁ node := by
  match items with
  | [] => cases h
  | node :: rest =>
    rcases evaluateItems_cons_eq_ok h with ⟨run, -⟩ | ⟨v, r₁, later, run, runRest, same⟩
    · exact ⟨[], node, rest, [], r, rfl, rfl, skips_of_evaluateNode run⟩
    · obtain rfl : later = none := by
        cases later with
        | none => rfl
        | some values => cases same
      obtain ⟨before, other, after, values, r₂, rfl, front, skips⟩ := skips_of_evaluateItems runRest
      refine ⟨node :: before, other, after, v :: values, r₂, rfl, ?_, skips⟩
      rw [evaluateItems_cons_value run, front]
      rfl

end

theorem evaluateItems_append {scope : Scope} {r r' : Run} {before : List Node} {values : List Json}
    (front : evaluateItems scope r before = .ok (some values, r')) (rest : List Node) :
    evaluateItems scope r (before ++ rest) =
      (evaluateItems scope r' rest).map fun result => (result.1.map (values ++ ·), result.2) := by
  induction before generalizing r values with
  | nil =>
    obtain ⟨⟨⟩, rfl⟩ := Prod.mk.inj (Except.ok.inj front)
    rw [List.nil_append]
    cases evaluateItems scope r rest with
    | error e => rfl
    | ok result => obtain ⟨_ | later, _⟩ := result <;> rfl
  | cons node before ih =>
    rcases evaluateItems_cons_eq_ok front with ⟨-, never⟩ | ⟨v, r₁, later, run, runRest, same⟩
    · cases never
    · obtain ⟨values', rfl, rfl⟩ := Option.map_eq_some_iff.mp same.symm
      rw [List.cons_append, evaluateItems_cons_value run, ih runRest]
      cases evaluateItems scope r' rest with
      | error e => rfl
      | ok result => obtain ⟨_ | later, _⟩ := result <;> rfl

theorem exists_skipped_of_root {root : Chain} {scope : Scope} {r : Run} {outcome : Outcome}
    (given : (root.evaluate scope scope.root r.table).1 = .ok outcome)
    (none : listElements root outcome = .ok none) (entries : List (String × Node)) :
    ∃ r', evaluateNode scope r (.list root entries) = .ok (.skipped, r') := by
  obtain ⟨r', run⟩ := exists_runChain given
  refine ⟨r', ?_⟩
  rw [evaluateNode, run]
  simp only [bind, Except.bind, none]
  rfl

/-- A node is skipped exactly as told. -/
theorem skipped_iff {scope : Scope} {r : Run} {node : Node} :
    (∃ r', evaluateNode scope r node = .ok (.skipped, r')) ↔ Skips scope r node := by
  refine ⟨fun ⟨_, h⟩ => skips_of_evaluateNode h, fun skips => ?_⟩
  induction skips with
  | expression skipped =>
    rw [evaluateNode]
    exact exists_runChain skipped
  | root entries skipped =>
    exact exists_skipped_of_root skipped (listElements_eq_none_iff.mpr (.inl rfl)) entries
  | noList entries given noList mode =>
    exact exists_skipped_of_root given
      (listElements_eq_none_iff.mpr (.inr ⟨_, rfl, noList, mode⟩)) entries
  | element after front _ ih =>
    obtain ⟨r', skipped⟩ := ih
    refine ⟨r', ?_⟩
    rw [evaluateNode, evaluateItems_append front, evaluateItems_cons_skipped skipped]
    rfl

/-! ### Whole outputs -/

/-- Every mapping in an output, at its top, under a key or for an element of a list, has the keys of
the entries that are not skipped, each where the first of them stands and with the value of the
last; and it is known which nodes are skipped. -/
theorem mappings_gather (m : Mapper) :
    (∀ data context v stats, m.evaluate data context = .ok (v, stats) →
      ∃ r, MapsTo ⟨data, data, context⟩ {} m.plan v r) ∧
    (∀ scope r entries outcome r', evaluateNode scope r (.nested entries) = .ok (outcome, r') →
      ∃ v, outcome = .value v ∧ MapsTo scope r entries v r') ∧
    (∀ scope r root entries v r', evaluateNode scope r (.list root entries) = .ok (.value v, r') →
      ∃ values, v = .array values ∧ List.Forall₂
        (fun item value => ∃ r', MapsTo { scope with root := item } {} entries value r')
        (elementsOf root scope r) values) ∧
    ∀ scope r node,
      (∃ r', evaluateNode scope r node = .ok (.skipped, r')) ↔ Skips scope r node := by
  refine ⟨?_, ?_, ?_, fun _ _ _ => skipped_iff⟩
  · intro data context v stats h
    rw [evaluate] at h
    obtain ⟨⟨fields, r⟩, run, h⟩ := bind_eq_ok_iff.mp h
    obtain ⟨rfl, -⟩ := Prod.mk.inj (pure_eq_ok_iff.mp h)
    exact ⟨r, mapsTo_of_evaluateEntries run⟩
  · intro scope r entries outcome r' h
    obtain ⟨fields, run, rfl⟩ := evaluateNode_nested_eq_ok h
    exact ⟨_, rfl, mapsTo_of_evaluateEntries run⟩
  · intro scope r root entries v r' h
    obtain ⟨given, r₁, run, ⟨-, never, -⟩ | ⟨items, results, some, all, same, -⟩⟩ :=
      evaluateNode_list_eq_ok h
    · cases never
    · refine ⟨_, Outcome.value.inj same, ?_⟩
      rw [elementsOf_of_runChain run some, List.forall₂_map_right_iff]
      exact (mapM_eq_ok_iff.mp all).imp fun item result mapped =>
        ⟨result.2, mapsTo_of_evaluateEntries mapped⟩

/-- Repeated keys, of which each has an entry that is skipped where nothing is found. -/
def cargo : Template :=
  .mapping [("tare", .expression "crate.tare"), ("net", .constant (.ofInt 7)),
    ("tare", .constant (.ofInt 2)), ("net", .sequence [.constant .null, .expression "crate.net"]),
    ("tare", .expression "tare")]

/-- The skipped entry of a key that comes first does not count for its place. -/
theorem mappings_gather_cargo :
    ∃ m r outcomes fields, compile cargo { failMode := .skip } = .ok m ∧
      Outcomes ⟨.object [("tare", .ofInt 3)], .object [("tare", .ofInt 3)], .null⟩ {} m.plan
        outcomes r ∧
      fields = [("net", .ofInt 7), ("tare", .ofInt 3)] ∧ Gathers outcomes fields := by
  have checked : (compile cargo { failMode := .skip }).toOption.bind (fun m =>
      (m.evaluate (.object [("tare", .ofInt 3)]) .null).toOption.map Prod.fst) =
      some (.object [("net", .ofInt 7), ("tare", .ofInt 3)]) := by decide +kernel
  obtain ⟨m, compiled, evaluated⟩ := Option.bind_eq_some_iff.mp checked
  obtain ⟨⟨v, stats⟩, evaluated, rfl⟩ := Option.map_eq_some_iff.mp evaluated
  rw [toOption_eq_some_iff] at compiled evaluated
  obtain ⟨r, outcomes, fields, turns, same, gathers⟩ := (mappings_gather m).1 _ _ _ _ evaluated
  exact ⟨m, r, outcomes, fields, compiled, turns, (Json.object.inj same).symm, gathers⟩

end Mapper

end Reshape
