import Reshape.Proofs.Except
import Reshape.Template.Json

/-!
The JSON form of templates is exact. What is written is read as it was, and what can be read is what
is written, but for the order of the two fields of list bodies. Markers are told from mappings by
the keys of the object alone.
-/

namespace Reshape

/-- Not the keys of a marker. -/
def Unmarked (keys : List String) : Prop := keys ≠ ["$value"] ∧ keys ≠ ["$list"]

/-! ### Values -/

namespace Json

mutual

/-- The keys of every object are distinct. -/
def DistinctKeys : Json → Prop
  | .array items => itemsDistinct items
  | .object fields => (fields.map Prod.fst).Nodup ∧ fieldsDistinct fields
  | _ => True

def itemsDistinct : List Json → Prop
  | [] => True
  | v :: rest => v.DistinctKeys ∧ itemsDistinct rest

def fieldsDistinct : List (String × Json) → Prop
  | [] => True
  | (_, v) :: rest => v.DistinctKeys ∧ fieldsDistinct rest

end

/-- The root before the template. -/
def rootFirst (body : List (String × Json)) : List (String × Json) :=
  if body.map Prod.fst = ["template", "root"] then body.reverse else body

mutual

/-- The same form of a template with the root before the template in every list body. Constants hold
no list bodies. -/
def inOrder : Json → Json
  | .array items => .array (itemsInOrder items)
  | .object [(key, v)] =>
    if key = "$value" then .object [(key, v)]
    else if key = "$list" then .object [(key, listInOrder v)]
    else .object [(key, v.inOrder)]
  | .object fields => .object (fieldsInOrder fields)
  | v => v

def itemsInOrder : List Json → List Json
  | [] => []
  | v :: rest => v.inOrder :: itemsInOrder rest

def fieldsInOrder : List (String × Json) → List (String × Json)
  | [] => []
  | (key, v) :: rest => (key, v.inOrder) :: fieldsInOrder rest

def listInOrder : Json → Json
  | .object body => .object (rootFirst (templateInOrder body))
  | v => v

/-- Puts the template among the fields of a list body in order. -/
def templateInOrder : List (String × Json) → List (String × Json)
  | [] => []
  | (key, v) :: rest => (key, if key = "template" then v.inOrder else v) :: templateInOrder rest

end

theorem keys_fieldsInOrder (fields : List (String × Json)) :
    (fieldsInOrder fields).map Prod.fst = fields.map Prod.fst := by
  induction fields with
  | nil => rfl
  | cons field rest ih => rw [fieldsInOrder, List.map_cons, List.map_cons, ih]

theorem inOrder_object {fields : List (String × Json)} (unmarked : Unmarked (fields.map Prod.fst)) :
    inOrder (.object fields) = .object (fieldsInOrder fields) := by
  match fields with
  | [] | _ :: _ :: _ => rw [inOrder]; nofun
  | [(key, v)] =>
    have noValue : key ≠ "$value" := fun same => unmarked.1 (by rw [same]; rfl)
    have noList : key ≠ "$list" := fun same => unmarked.2 (by rw [same]; rfl)
    rw [inOrder, if_neg noValue, if_neg noList]
    rfl

theorem exists_inOrder_object (fields : List (String × Json)) :
    ∃ fields', inOrder (.object fields) = .object fields' := by
  match fields with
  | [] | _ :: _ :: _ => exact ⟨_, by rw [inOrder]; nofun⟩
  | [(key, v)] =>
    rw [inOrder]
    split_ifs
    all_goals exact ⟨_, rfl⟩

end Json

/-! ### Templates -/

namespace Template

mutual

/-- The JSON form of a template. A chain that is compiled already has none. -/
def toJson : Template → Json
  | .expression source => .string source
  | .chain c => .string c.source
  | .constant v => .object [("$value", v)]
  | .mapping entries => .object (entriesToJson entries)
  | .list root template =>
    .object [("$list", .object [("root", root.toJson), ("template", template.toJson)])]
  | .sequence items => .array (itemsToJson items)

def entriesToJson : List (String × Template) → List (String × Json)
  | [] => []
  | (key, template) :: rest => (key, template.toJson) :: entriesToJson rest

def itemsToJson : List Template → List Json
  | [] => []
  | template :: rest => template.toJson :: itemsToJson rest

end

mutual

/-- The template has a JSON form. -/
def Writable : Template → Prop
  | .expression _ | .constant _ => True
  | .chain _ => False
  | .mapping entries =>
    (entries.map Prod.fst).Nodup ∧ Unmarked (entries.map Prod.fst) ∧ entriesWritable entries
  | .list root template =>
    (∃ source, root = .expression source) ∧ (∃ fields, template.toJson = .object fields) ∧
      template.Writable
  | .sequence items => itemsWritable items

def entriesWritable : List (String × Template) → Prop
  | [] => True
  | (_, template) :: rest => template.Writable ∧ entriesWritable rest

def itemsWritable : List Template → Prop
  | [] => True
  | template :: rest => template.Writable ∧ itemsWritable rest

end

theorem keys_entriesToJson (entries : List (String × Template)) :
    (entriesToJson entries).map Prod.fst = entries.map Prod.fst := by
  induction entries with
  | nil => rfl
  | cons entry rest ih => rw [entriesToJson, List.map_cons, List.map_cons, ih]

variable {path : TemplatePath}

theorem ofJsonAt_object {fields : List (String × Json)} (unmarked : Unmarked (fields.map Prod.fst)) :
    ofJsonAt path (.object fields) = .mapping <$> entriesAt path fields := by
  match fields with
  | [] | _ :: _ :: _ => rw [ofJsonAt]; nofun
  | [(key, v)] =>
    have noValue : key ≠ "$value" := fun same => unmarked.1 (by rw [same]; rfl)
    have noList : key ≠ "$list" := fun same => unmarked.2 (by rw [same]; rfl)
    rw [ofJsonAt, if_neg noValue, if_neg noList, entriesAt]
    cases ofJsonAt (path ++ [.entry key]) v <;> rfl

theorem ofJsonAt_list (v : Json) :
    ofJsonAt path (.object [("$list", v)]) = listAt (path ++ [.listBody]) v := by
  rw [ofJsonAt, if_neg (by decide), if_pos rfl]

theorem listTemplateAt_of_ne {key : String} (different : key ≠ "template") (v : Json)
    (rest : List (String × Json)) :
    listTemplateAt path ((key, v) :: rest) = listTemplateAt path rest := by
  cases v <;> rw [listTemplateAt, if_neg different] <;> nofun

theorem listRoot_eq_ok_iff {body : List (String × Json)} {root : Template} :
    listRoot path body = .ok root ↔ (∀ field ∈ body, field.1 = "root" ∨ field.1 = "template") ∧
      ∃ source, body.lookup "root" = some (.string source) ∧ root = .expression source := by
  have known : (body.find? fun field => field.1 != "root" && field.1 != "template") = none ↔
      ∀ field ∈ body, field.1 = "root" ∨ field.1 = "template" := by
    simp [List.find?_eq_none, or_iff_not_imp_left]
  rw [← known, listRoot]
  cases body.find? fun field => field.1 != "root" && field.1 != "template" with
  | some field => simp
  | none =>
    cases body.lookup "root" with
    | none => simp
    | some v => cases v <;> simp [eq_comm]

/-! ### Reading what is written -/

mutual

theorem ofJsonAt_toJson {template : Template} (h : template.Writable) (path : TemplatePath) :
    ofJsonAt path template.toJson = .ok template := by
  match template with
  | .expression source => rfl
  | .chain c => exact h.elim
  | .constant v => rfl
  | .mapping entries =>
    have unmarked : Unmarked ((entriesToJson entries).map Prod.fst) := by
      rw [keys_entriesToJson]
      exact h.2.1
    rw [toJson, ofJsonAt_object unmarked, entriesAt_toJson h.2.2]
    rfl
  | .list root template =>
    obtain ⟨⟨source, rfl⟩, ⟨fields, object⟩, writable⟩ := h
    have inner := ofJsonAt_toJson writable (path ++ [.listBody] ++ [.listTemplate])
    rw [object] at inner
    have own : listRoot (path ++ [.listBody]) [("root", .string source), ("template", .object fields)] =
        .ok (.expression source) := listRoot_eq_ok_iff.mpr ⟨by simp, source, rfl, rfl⟩
    have found : listTemplateAt (path ++ [.listBody])
        [("root", .string source), ("template", .object fields)] = .ok template := inner
    rw [toJson, toJson, object, ofJsonAt_list, listAt, own, found]
    rfl
  | .sequence items =>
    rw [toJson, ofJsonAt, itemsAt_toJson h]
    rfl

theorem entriesAt_toJson {entries : List (String × Template)} (h : entriesWritable entries)
    (path : TemplatePath) : entriesAt path (entriesToJson entries) = .ok entries := by
  match entries with
  | [] => rfl
  | (key, template) :: rest =>
    rw [entriesToJson, entriesAt, ofJsonAt_toJson h.1, entriesAt_toJson h.2]
    rfl

theorem itemsAt_toJson {items : List Template} (h : itemsWritable items) (path : TemplatePath)
    (index : Nat) : itemsAt path index (itemsToJson items) = .ok items := by
  match items with
  | [] => rfl
  | template :: rest =>
    rw [itemsToJson, itemsAt, ofJsonAt_toJson h.1, itemsAt_toJson h.2]
    rfl

end

/-! ### Writing what is read -/

/-- A list body that can be read has its two fields, in one of two orders. -/
theorem body_cases {body : List (String × Json)} (once : (body.map Prod.fst).Nodup)
    (known : ∀ field ∈ body, field.1 = "root" ∨ field.1 = "template") {root template : Json}
    (first : body.lookup "root" = some root) (second : body.lookup "template" = some template) :
    body = [("root", root), ("template", template)] ∨
      body = [("template", template), ("root", root)] := by
  match body with
  | [] => cases first
  | [(key, v)] =>
    rcases known _ List.mem_cons_self with rfl | rfl
    · cases second
    · cases first
  | [(key, v), (key', w)] =>
    have different : key ≠ key' := by simpa using once
    have here := known _ List.mem_cons_self
    have there := known (key', w) (by simp)
    -- Two distinct keys of two: each field is the root or the template.
    rcases here with rfl | rfl <;> rcases there with rfl | rfl
    · exact absurd rfl different
    · obtain rfl := Option.some.inj first
      obtain rfl := Option.some.inj second
      exact .inl rfl
    · obtain rfl := Option.some.inj first
      obtain rfl := Option.some.inj second
      exact .inr rfl
    · exact absurd rfl different
  | (key, v) :: (key', w) :: (key'', u) :: rest =>
    have three : key ≠ key' ∧ key ≠ key'' ∧ key' ≠ key'' := by
      simp only [List.map_cons, List.nodup_cons, List.mem_cons, not_or] at once
      exact ⟨once.1.1, once.1.2.1, once.2.1.1⟩
    have here := known _ List.mem_cons_self
    have there := known (key', w) (by simp)
    have behind := known (key'', u) (by simp)
    grind

theorem toJson_of_mapping {path : TemplatePath} {fields : List (String × Json)} {template : Template}
    (once : (fields.map Prod.fst).Nodup) (unmarked : Unmarked (fields.map Prod.fst))
    (h : ofJsonAt path (.object fields) = .ok template)
    (inside : ∀ entries, entriesAt path fields = .ok entries →
      entriesWritable entries ∧ entriesToJson entries = Json.fieldsInOrder fields) :
    template.Writable ∧ template.toJson = Json.inOrder (.object fields) := by
  rw [ofJsonAt_object unmarked] at h
  obtain ⟨entries, read, rfl⟩ := map_eq_ok_iff.mp h
  obtain ⟨writable, same⟩ := inside entries read
  have keys : entries.map Prod.fst = fields.map Prod.fst := by
    rw [← keys_entriesToJson, same, Json.keys_fieldsInOrder]
  rw [Json.inOrder_object unmarked, ← same, Writable, keys]
  exact ⟨⟨once, unmarked, writable⟩, rfl⟩

mutual

theorem toJson_of_ofJsonAt {path : TemplatePath} {v : Json} {template : Template}
    (distinct : v.DistinctKeys) (h : ofJsonAt path v = .ok template) :
    template.Writable ∧ template.toJson = v.inOrder := by
  match v with
  | .null | .bool _ | .number _ => cases h
  | .string source =>
    obtain rfl := Except.ok.inj h
    exact ⟨trivial, rfl⟩
  | .array items =>
    rw [ofJsonAt] at h
    obtain ⟨templates, inside, rfl⟩ := map_eq_ok_iff.mp h
    obtain ⟨writable, same⟩ := toJson_of_itemsAt distinct inside
    exact ⟨writable, congrArg Json.array same⟩
  | .object [(key, v)] =>
    by_cases isValue : key = "$value"
    · subst isValue
      obtain rfl := Except.ok.inj h
      exact ⟨trivial, rfl⟩
    by_cases isList : key = "$list"
    · subst isList
      rw [ofJsonAt_list] at h
      exact toJson_of_listAt distinct.2.1 h
    exact toJson_of_mapping distinct.1 (by simp [Unmarked, isValue, isList]) h
      fun _ => toJson_of_entriesAt distinct.2
  | .object [] | .object (_ :: _ :: _) =>
    exact toJson_of_mapping distinct.1 (by simp [Unmarked]) h
      fun _ => toJson_of_entriesAt distinct.2

theorem toJson_of_itemsAt {path : TemplatePath} {index : Nat} {items : List Json}
    {templates : List Template} (distinct : Json.itemsDistinct items)
    (h : itemsAt path index items = .ok templates) :
    itemsWritable templates ∧ itemsToJson templates = Json.itemsInOrder items := by
  match items with
  | [] =>
    obtain rfl := Except.ok.inj h
    exact ⟨trivial, rfl⟩
  | v :: rest =>
    simp only [itemsAt, bind_eq_ok_iff, pure_eq_ok_iff] at h
    obtain ⟨template, first, templates, later, rfl⟩ := h
    obtain ⟨writable, same⟩ := toJson_of_ofJsonAt distinct.1 first
    obtain ⟨writable', same'⟩ := toJson_of_itemsAt distinct.2 later
    exact ⟨⟨writable, writable'⟩, congrArg₂ List.cons same same'⟩

theorem toJson_of_entriesAt {path : TemplatePath} {fields : List (String × Json)}
    {entries : List (String × Template)} (distinct : Json.fieldsDistinct fields)
    (h : entriesAt path fields = .ok entries) :
    entriesWritable entries ∧ entriesToJson entries = Json.fieldsInOrder fields := by
  match fields with
  | [] =>
    obtain rfl := Except.ok.inj h
    exact ⟨trivial, rfl⟩
  | (key, v) :: rest =>
    simp only [entriesAt, bind_eq_ok_iff, pure_eq_ok_iff] at h
    obtain ⟨template, first, entries, later, rfl⟩ := h
    obtain ⟨writable, same⟩ := toJson_of_ofJsonAt distinct.1 first
    obtain ⟨writable', same'⟩ := toJson_of_entriesAt distinct.2 later
    exact ⟨⟨writable, writable'⟩, congrArg₂ (fun v rest => (key, v) :: rest) same same'⟩

theorem toJson_of_listAt {path : TemplatePath} {v : Json} {template : Template}
    (distinct : v.DistinctKeys) (h : listAt path v = .ok template) :
    template.Writable ∧ template.toJson = .object [("$list", v.listInOrder)] := by
  match v with
  | .null | .bool _ | .number _ | .string _ | .array _ => cases h
  | .object body =>
    simp only [listAt, bind_eq_ok_iff, pure_eq_ok_iff] at h
    obtain ⟨root, own, inner, found, rfl⟩ := h
    obtain ⟨known, source, first, rfl⟩ := listRoot_eq_ok_iff.mp own
    obtain ⟨fields, second, writable, same⟩ := toJson_of_listTemplateAt distinct.2 found
    obtain ⟨fields', object⟩ := Json.exists_inOrder_object fields
    refine ⟨⟨⟨source, rfl⟩, ⟨fields', same.trans object⟩, writable⟩, ?_⟩
    rw [toJson, same]
    rcases body_cases distinct.1 known first second with rfl | rfl <;> rfl

theorem toJson_of_listTemplateAt {path : TemplatePath} {body : List (String × Json)}
    {template : Template} (distinct : Json.fieldsDistinct body)
    (h : listTemplateAt path body = .ok template) :
    ∃ fields, body.lookup "template" = some (.object fields) ∧ template.Writable ∧
      template.toJson = Json.inOrder (.object fields) := by
  match body with
  | [] => cases h
  | (key, v) :: rest =>
    by_cases isTemplate : key = "template"
    · subst isTemplate
      match v with
      | .null | .bool _ | .number _ | .string _ | .array _ => cases h
      | .object fields => exact ⟨fields, rfl, toJson_of_ofJsonAt distinct.1 h⟩
    · rw [listTemplateAt_of_ne isTemplate] at h
      obtain ⟨fields, found, written⟩ := toJson_of_listTemplateAt distinct.2 h
      refine ⟨fields, ?_, written⟩
      rwa [List.lookup_cons, beq_false_of_ne (Ne.symm isTemplate)]

end

/-! ### The order of the fields of list bodies -/

theorem listAt_rootFirst (path : TemplatePath) (body : List (String × Json)) :
    listAt path (.object (Json.rootFirst body)) = listAt path (.object body) := by
  rw [Json.rootFirst]
  split_ifs with keys
  · match body with
    | [] | [_] | _ :: _ :: _ :: _ => simp at keys
    | [(key, template), (key', root)] =>
      obtain ⟨rfl, rfl⟩ : key = "template" ∧ key' = "root" := by simpa using keys
      rfl
  · rfl

theorem find?_templateInOrder {p : String → Bool} (skips : p "template" = false)
    (body : List (String × Json)) :
    (Json.templateInOrder body).find? (fun field => p field.1) = body.find? fun field => p field.1 := by
  induction body with
  | nil => rfl
  | cons field rest ih =>
    obtain ⟨key, v⟩ := field
    rw [Json.templateInOrder, List.find?_cons, List.find?_cons, ih]
    by_cases isTemplate : key = "template"
    · simp only [isTemplate, skips]
    · rw [if_neg isTemplate]

theorem lookup_templateInOrder {key : String} (different : key ≠ "template")
    (body : List (String × Json)) : (Json.templateInOrder body).lookup key = body.lookup key := by
  induction body with
  | nil => rfl
  | cons field rest ih =>
    obtain ⟨key', v⟩ := field
    rw [Json.templateInOrder, List.lookup_cons, List.lookup_cons, ih]
    by_cases isTemplate : key' = "template"
    · rw [isTemplate, beq_false_of_ne different]
    · rw [if_neg isTemplate]

/-- Only the field of the template changes, which is neither unknown nor the root. -/
theorem listRoot_templateInOrder (path : TemplatePath) (body : List (String × Json)) :
    listRoot path (Json.templateInOrder body) = listRoot path body := by
  have unknown := find?_templateInOrder (p := fun key => key != "root" && key != "template") rfl body
  rw [listRoot, listRoot, unknown, lookup_templateInOrder (by decide)]

mutual

theorem ofJsonAt_inOrder (path : TemplatePath) (v : Json) :
    ofJsonAt path v.inOrder = ofJsonAt path v := by
  match v with
  | .null | .bool _ | .number _ | .string _ => rfl
  | .array items => rw [Json.inOrder, ofJsonAt, ofJsonAt, itemsAt_inOrder]
  | .object [(key, v)] =>
    rw [Json.inOrder]
    split_ifs with isValue isList
    · rfl
    · rw [isList, ofJsonAt_list, ofJsonAt_list, listAt_inOrder]
    · rw [ofJsonAt, ofJsonAt, if_neg isValue, if_neg isValue, if_neg isList, if_neg isList,
        ofJsonAt_inOrder]
  | .object [] => rfl
  | .object (field :: field' :: rest) =>
    have unmarked : Unmarked ((field :: field' :: rest).map Prod.fst) := by simp [Unmarked]
    have still := unmarked
    rw [← Json.keys_fieldsInOrder] at still
    rw [Json.inOrder_object unmarked, ofJsonAt_object unmarked, ofJsonAt_object still,
      entriesAt_inOrder]

theorem itemsAt_inOrder (path : TemplatePath) (index : Nat) (items : List Json) :
    itemsAt path index (Json.itemsInOrder items) = itemsAt path index items := by
  match items with
  | [] => rfl
  | v :: rest => rw [Json.itemsInOrder, itemsAt, itemsAt, ofJsonAt_inOrder, itemsAt_inOrder]

theorem entriesAt_inOrder (path : TemplatePath) (fields : List (String × Json)) :
    entriesAt path (Json.fieldsInOrder fields) = entriesAt path fields := by
  match fields with
  | [] => rfl
  | (key, v) :: rest =>
    rw [Json.fieldsInOrder, entriesAt, entriesAt, ofJsonAt_inOrder, entriesAt_inOrder]

theorem listAt_inOrder (path : TemplatePath) (v : Json) :
    listAt path v.listInOrder = listAt path v := by
  match v with
  | .null | .bool _ | .number _ | .string _ | .array _ => rfl
  | .object body =>
    rw [Json.listInOrder, listAt_rootFirst, listAt, listAt, listRoot_templateInOrder,
      listTemplateAt_inOrder]

theorem listTemplateAt_inOrder (path : TemplatePath) (body : List (String × Json)) :
    listTemplateAt path (Json.templateInOrder body) = listTemplateAt path body := by
  match body with
  | [] => rfl
  | (key, v) :: rest =>
    rw [Json.templateInOrder]
    by_cases isTemplate : key = "template"
    · rw [isTemplate, if_pos rfl]
      match v with
      | .null | .bool _ | .number _ | .string _ | .array _ => rfl
      | .object fields =>
        have inner := ofJsonAt_inOrder (path ++ [.listTemplate]) (.object fields)
        obtain ⟨fields', object⟩ := Json.exists_inOrder_object fields
        rw [object] at inner ⊢
        exact inner
    · rw [listTemplateAt_of_ne isTemplate, listTemplateAt_of_ne isTemplate, listTemplateAt_inOrder]

end

/-! ### Rejection -/

/-- Every failure is that of an invalid template. -/
def FailsInvalid {α : Type} (x : Except CompileError α) : Prop :=
  ∀ e, x = .error e → ∃ path fault, e = .invalidTemplate path fault

section FailsInvalid

variable {α β : Type}

theorem failsInvalid_ok (a : α) : FailsInvalid (.ok a) := nofun

theorem failsInvalid_error (path : TemplatePath) (fault : TemplateFault) :
    FailsInvalid (.error (.invalidTemplate path fault) : Except CompileError α) := by
  intro e failed
  exact ⟨path, fault, (Except.error.inj failed).symm⟩

theorem FailsInvalid.bind {x : Except CompileError α} {f : α → Except CompileError β}
    (first : FailsInvalid x) (later : ∀ a, FailsInvalid (f a)) : FailsInvalid (x >>= f) := by
  intro e failed
  rcases bind_eq_error_iff.mp failed with failed | ⟨a, -, failed⟩
  · exact first e failed
  · exact later a e failed

theorem FailsInvalid.map {x : Except CompileError α} (first : FailsInvalid x) (f : α → β) :
    FailsInvalid (f <$> x) := by
  intro e failed
  exact first e (map_eq_error_iff.mp failed)

end FailsInvalid

theorem failsInvalid_listRoot (path : TemplatePath) (body : List (String × Json)) :
    FailsInvalid (listRoot path body) := by
  rw [listRoot]
  split
  · exact failsInvalid_error _ _
  · split
    · exact failsInvalid_ok _
    · exact failsInvalid_error _ _

mutual

theorem failsInvalid_ofJsonAt (path : TemplatePath) (v : Json) : FailsInvalid (ofJsonAt path v) := by
  match v with
  | .null | .bool _ | .number _ => exact failsInvalid_error _ _
  | .string _ | .object [] => exact failsInvalid_ok _
  | .array items =>
    rw [ofJsonAt]
    exact (failsInvalid_itemsAt path 0 items).map _
  | .object [(key, v)] =>
    rw [ofJsonAt]
    split_ifs
    · exact failsInvalid_ok _
    · exact failsInvalid_listAt _ v
    · exact (failsInvalid_ofJsonAt _ v).bind fun _ => failsInvalid_ok _
  | .object (field :: field' :: rest) =>
    have unmarked : Unmarked ((field :: field' :: rest).map Prod.fst) := by simp [Unmarked]
    rw [ofJsonAt_object unmarked]
    exact (failsInvalid_entriesAt path (field :: field' :: rest)).map _

theorem failsInvalid_itemsAt (path : TemplatePath) (index : Nat) (items : List Json) :
    FailsInvalid (itemsAt path index items) := by
  match items with
  | [] => exact failsInvalid_ok _
  | v :: rest =>
    rw [itemsAt]
    refine (failsInvalid_ofJsonAt _ v).bind fun _ => ?_
    exact (failsInvalid_itemsAt path (index + 1) rest).bind fun _ => failsInvalid_ok _

theorem failsInvalid_entriesAt (path : TemplatePath) (fields : List (String × Json)) :
    FailsInvalid (entriesAt path fields) := by
  match fields with
  | [] => exact failsInvalid_ok _
  | (key, v) :: rest =>
    rw [entriesAt]
    refine (failsInvalid_ofJsonAt _ v).bind fun _ => ?_
    exact (failsInvalid_entriesAt path rest).bind fun _ => failsInvalid_ok _

theorem failsInvalid_listAt (path : TemplatePath) (v : Json) : FailsInvalid (listAt path v) := by
  match v with
  | .null | .bool _ | .number _ | .string _ | .array _ => exact failsInvalid_error _ _
  | .object body =>
    rw [listAt]
    refine (failsInvalid_listRoot path body).bind fun _ => ?_
    exact (failsInvalid_listTemplateAt path body).bind fun _ => failsInvalid_ok _

theorem failsInvalid_listTemplateAt (path : TemplatePath) (body : List (String × Json)) :
    FailsInvalid (listTemplateAt path body) := by
  match body with
  | [] => exact failsInvalid_error _ _
  | (key, v) :: rest =>
    by_cases isTemplate : key = "template"
    · subst isTemplate
      match v with
      | .null | .bool _ | .number _ | .string _ | .array _ => exact failsInvalid_error _ _
      | .object fields => exact failsInvalid_ofJsonAt _ (.object fields)
    · rw [listTemplateAt_of_ne isTemplate]
      exact failsInvalid_listTemplateAt path rest

end

/-! ### The whole form -/

/-- A template that has a JSON form is read from it as it was. A value is read as a template exactly
where that template has a form, which is the value up to the order of the fields of list bodies, and
every other value is rejected as an invalid template. -/
theorem ofJson_exact :
    (∀ template : Template, template.Writable → ofJson template.toJson = .ok template) ∧
      ∀ v : Json, v.DistinctKeys →
        (∀ template, ofJson v = .ok template ↔
          template.Writable ∧ template.toJson = v.inOrder) ∧
        ((∀ template : Template, template.Writable → template.toJson ≠ v.inOrder) →
          ∃ path fault, ofJson v = .error (.invalidTemplate path fault)) := by
  have exact : ∀ v : Json, v.DistinctKeys → ∀ template,
      ofJson v = .ok template ↔ template.Writable ∧ template.toJson = v.inOrder := by
    intro v distinct template
    constructor
    · exact toJson_of_ofJsonAt distinct
    · rintro ⟨writable, same⟩
      rw [ofJson, ← ofJsonAt_inOrder, ← same]
      exact ofJsonAt_toJson writable []
  refine ⟨fun template writable => ofJsonAt_toJson writable [], fun v distinct => ?_⟩
  refine ⟨exact v distinct, fun other => ?_⟩
  cases read : ofJson v with
  | ok template =>
    obtain ⟨writable, same⟩ := (exact v distinct template).mp read
    exact absurd same (other template writable)
  | error e =>
    obtain ⟨path, fault, rfl⟩ := failsInvalid_ofJsonAt [] v e read
    exact ⟨path, fault, rfl⟩

/-- A marker's key beside another, a list of lists, and a constant that looks like a list body. -/
def tides : Template :=
  .mapping [("$value", .expression "height"), ("stations", .list (.expression "stations")
    (.list (.expression "gauges") (.constant (.object [("template", .null), ("root", .null)]))))]

/-- The template before the root in the outer list body. -/
def tidesForm : Json :=
  .object [("$value", .string "height"), ("stations", .object [("$list", .object [
    ("template", .object [("$list", .object [("root", .string "gauges"),
      ("template", .object [("$value", .object [("template", .null), ("root", .null)])])])]),
    ("root", .string "stations")])])]

/-- A list body with another field. -/
def sortedForm : Json :=
  .object [("$list", .object [("root", .string "stations"), ("template", .object []),
    ("sort", .bool true)])]

theorem ofJson_exact_tides :
    tides.Writable ∧ tidesForm.DistinctKeys ∧ sortedForm.DistinctKeys ∧
      ofJson tides.toJson = .ok tides ∧ tides.toJson ≠ tidesForm ∧ ofJson tidesForm = .ok tides ∧
      ∃ path fault, ofJson sortedForm = .error (.invalidTemplate path fault) := by
  have writable : tides.Writable := by
    simp [tides, Writable, entriesWritable, Unmarked, toJson]
  have distinct : tidesForm.DistinctKeys := by
    simp [tidesForm, Json.DistinctKeys, Json.fieldsDistinct]
  have distinct' : sortedForm.DistinctKeys := by
    simp [sortedForm, Json.DistinctKeys, Json.fieldsDistinct]
  have other : ∀ template : Template, template.Writable → template.toJson ≠ sortedForm.inOrder := by
    intro template writable same
    cases template with
    | mapping entries =>
      have keys := keys_entriesToJson entries
      rw [Json.object.inj same] at keys
      exact writable.2.1.2 keys.symm
    | _ => simp [toJson, sortedForm, Json.inOrder, Json.listInOrder, Json.templateInOrder,
        Json.rootFirst] at same
  obtain ⟨written, form⟩ := ofJson_exact
  refine ⟨writable, distinct, distinct', written tides writable, ?_, ?_, ?_⟩
  · simp [tides, tidesForm, toJson, entriesToJson]
  · exact ((form tidesForm distinct).1 tides).mpr ⟨writable, rfl⟩
  · exact (form sortedForm distinct').2 other

end Template

end Reshape
