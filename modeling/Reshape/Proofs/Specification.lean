import Reshape.Proofs.Json.Documents
import Reshape.Specification

/-!
Stored specifications. Which objects are read as which specification does not depend on the order of
their fields nor on fields of other names; what is written is read as it was, the absent default and
the default of null told apart.
-/

namespace Reshape.Specification

/-- The values are such as JSON has. -/
structure Proper (s : Specification) : Prop where
  fallback : ∀ v, s.fallback = some v → v.Proper
  config : s.config.Proper

/-- Written and read again, the specification is the same; so are what it is written as and what it
is compiled to. -/
structure Survives (s : Specification) : Prop where
  document : ofDocument? (.ofJson s.toJson) = some s
  text : read? s.toJson.text = some s
  rewritten : (read? s.toJson.text).map (fun s' => s'.toJson.text) = some s.toJson.text
  compiled : ∀ s', read? s.toJson.text = some s' →
    ∀ registry, s'.compile registry = s.compile registry

section Fields

variable {α : Type} {fields : List (Option String × Document)} {read : Document → Option α}
  {name : String}

/-- What stands under a name, in order. -/
def under (name : String) (fields : List (Option String × Document)) : List Document :=
  (fields.filter fun field => field.1 = some name).map Prod.snd

/-- What is read under a name: there is one such field, or none and nothing is read. -/
def Holds (fields : List (Option String × Document)) (name : String) (read : Document → Option α) :
    Option α → Prop
  | some a => ∃ d, under name fields = [d] ∧ read d = some a
  | none => under name fields = []

/-- The fields of an object that is read as this specification, in any order. A fail mode that is
absent is `fail`, and a specification optimizes unless it says otherwise. -/
structure Describes (fields : List (Option String × Document)) (s : Specification) : Prop where
  texts : ∀ field ∈ fields, field.1.isSome
  failMode : ∃ held, Holds fields "fail_mode" readFailMode? held ∧ s.failMode = held.getD .fail
  fallback : Holds fields "default" Document.value? s.fallback
  optimize : ∃ held, Holds fields "optimize" readBool? held ∧ s.optimize = held.getD true
  config : Holds fields "config" Document.value? (some s.config)

/-! ### Fields in turn -/

/-- What is held under a name after a field with this key. -/
def Takes (name : String) (read : Document → Option α) (key : String) (d : Document)
    (before after : Option α) : Prop :=
  if key = name then once? before (read d) = some after else before = after

theorem holds_nil_iff {held : Option α} : Holds [] name read held ↔ held = none := by
  cases held <;> simp [Holds, under]

theorem once?_eq_some_iff {before read held : Option α} :
    once? before read = some held ↔ before = none ∧ read = held ∧ held ≠ none := by
  cases before <;> cases read <;> cases held <;> simp [once?]

theorem under_concat (key : String) (d : Document) :
    under name (fields ++ [(some key, d)]) =
      under name fields ++ if key = name then [d] else [] := by
  by_cases same : key = name <;> simp [under, same]

theorem holds_concat_iff {key : String} {d : Document} {held : Option α} :
    Holds (fields ++ [(some key, d)]) name read held ↔
      ∃ before, Holds fields name read before ∧ Takes name read key d before held := by
  by_cases same : key = name
  · simp only [Takes, if_pos same, once?_eq_some_iff]
    cases held <;> simp [Holds, under_concat, same, List.append_eq_singleton_iff]
  · simp only [Takes, if_neg same, exists_eq_right]
    cases held <;> simp [Holds, under_concat, same]

theorem take?_eq_some_iff {draft later : Draft} {key : String} {d : Document} :
    draft.take? (some key, d) = some later ↔
      Takes "fail_mode" readFailMode? key d draft.failMode later.failMode ∧
      Takes "default" Document.value? key d draft.fallback later.fallback ∧
      Takes "optimize" readBool? key d draft.optimize later.optimize ∧
      Takes "config" Document.value? key d draft.config later.config := by
  cases draft
  cases later
  rw [Draft.take?]
  split_ifs with failMode fallback optimize config
  all_goals simp [Takes, Option.map_eq_some_iff, *]
  all_goals tauto

/-- What a draft holds of the fields that have been taken. -/
structure Draft.Fills (fields : List (Option String × Document)) (draft : Draft) : Prop where
  texts : ∀ field ∈ fields, field.1.isSome
  failMode : Holds fields "fail_mode" readFailMode? draft.failMode
  fallback : Holds fields "default" Document.value? draft.fallback
  optimize : Holds fields "optimize" readBool? draft.optimize
  config : Holds fields "config" Document.value? draft.config

theorem Draft.fills_nil_iff {draft : Draft} : draft.Fills [] ↔ {} = draft := by
  constructor
  · rintro ⟨-, failMode, fallback, optimize, config⟩
    rw [holds_nil_iff] at failMode fallback optimize config
    cases draft
    simp_all
  · rintro rfl
    exact ⟨by simp, rfl, rfl, rfl, rfl⟩

theorem Draft.fills_concat_iff {field : Option String × Document} {later : Draft} :
    later.Fills (fields ++ [field]) ↔
      ∃ draft : Draft, draft.Fills fields ∧ draft.take? field = some later := by
  obtain ⟨_ | key, d⟩ := field
  · constructor
    · intro fills
      simpa using fills.texts (none, d) (by simp)
    · rintro ⟨_, -, taken⟩
      cases taken
  · simp only [take?_eq_some_iff]
    constructor
    · rintro ⟨texts, failMode, fallback, optimize, config⟩
      obtain ⟨_, failMode, toFailMode⟩ := holds_concat_iff.mp failMode
      obtain ⟨_, fallback, toFallback⟩ := holds_concat_iff.mp fallback
      obtain ⟨_, optimize, toOptimize⟩ := holds_concat_iff.mp optimize
      obtain ⟨_, config, toConfig⟩ := holds_concat_iff.mp config
      have texts' := fun field member => texts field (List.mem_append_left _ member)
      exact ⟨⟨_, _, _, _⟩, ⟨texts', failMode, fallback, optimize, config⟩, toFailMode, toFallback,
        toOptimize, toConfig⟩
    · rintro ⟨draft, fills, toFailMode, toFallback, toOptimize, toConfig⟩
      refine ⟨?_, holds_concat_iff.mpr ⟨_, fills.failMode, toFailMode⟩,
        holds_concat_iff.mpr ⟨_, fills.fallback, toFallback⟩,
        holds_concat_iff.mpr ⟨_, fills.optimize, toOptimize⟩,
        holds_concat_iff.mpr ⟨_, fills.config, toConfig⟩⟩
      intro field member
      rcases List.mem_append.mp member with member | member
      · exact fills.texts field member
      · obtain rfl := List.mem_singleton.mp member
        rfl

theorem Draft.foldlM_take?_eq_some_iff {draft : Draft} :
    fields.foldlM take? {} = some draft ↔ draft.Fills fields := by
  -- Induction from the end: the last field meets the draft of those before it.
  induction fields using List.reverseRecOn generalizing draft with
  | nil => exact Option.some_inj.trans fills_nil_iff.symm
  | append_singleton fields field ih =>
    rw [List.foldlM_append, fills_concat_iff]
    simp only [← ih]
    exact Option.bind_eq_some_iff.trans (by simp)

theorem ofDocument?_object_iff {s : Specification} :
    ofDocument? (.object fields) = some s ↔ Describes fields s := by
  have filled : ofDocument? (.object fields) = some s ↔
      ∃ draft : Draft, draft.Fills fields ∧ draft.spec? = some s := by
    simp only [← Draft.foldlM_take?_eq_some_iff]
    exact Option.bind_eq_some_iff
  rw [filled]
  constructor
  · rintro ⟨draft, ⟨texts, failMode, fallback, optimize, config⟩, done⟩
    obtain ⟨v, held, rfl⟩ := Option.map_eq_some_iff.mp done
    rw [held] at config
    exact ⟨texts, ⟨_, failMode, rfl⟩, fallback, ⟨_, optimize, rfl⟩, config⟩
  · rintro ⟨texts, ⟨m, failMode, sameMode⟩, fallback, ⟨b, optimize, same⟩, config⟩
    refine ⟨⟨m, s.fallback, b, some s.config⟩, ⟨texts, failMode, fallback, optimize, config⟩, ?_⟩
    rw [Draft.spec?, Option.map_some, ← sameMode, ← same]

end Fields

/-! ### Writing -/

variable {s : Specification}

theorem Proper.toJson (proper : s.Proper) : s.toJson.Proper := by
  obtain ⟨failMode, fallback, optimize, config⟩ := s
  cases fallback with
  | none =>
    refine .object (by simp) ?_
    simpa using ⟨.string _, .bool optimize, proper.config⟩
  | some v =>
    refine .object (by simp) ?_
    simpa using ⟨.string _, proper.fallback v rfl, .bool optimize, proper.config⟩

theorem ofDocument?_toJson (proper : s.Proper) : ofDocument? (.ofJson s.toJson) = some s := by
  obtain ⟨failMode, fallback, optimize, config⟩ := s
  have mode : readFailMode? (.ofJson (.string failMode.name)) = some failMode :=
    FailMode.ofName?_name failMode
  have flag : readBool? (.ofJson (.bool optimize)) = some optimize := rfl
  have template := Document.value?_ofJson proper.config
  rw [toJson, Document.ofJson, Document.ofFields_eq, ofDocument?_object_iff]
  cases fallback with
  | none =>
    exact ⟨by simp, ⟨some failMode, ⟨_, rfl, mode⟩, rfl⟩, rfl, ⟨some optimize, ⟨_, rfl, flag⟩, rfl⟩,
      ⟨_, rfl, template⟩⟩
  | some v =>
    exact ⟨by simp, ⟨some failMode, ⟨_, rfl, mode⟩, rfl⟩,
      ⟨_, rfl, Document.value?_ofJson (proper.fallback v rfl)⟩,
      ⟨some optimize, ⟨_, rfl, flag⟩, rfl⟩, ⟨_, rfl, template⟩⟩

theorem read?_toJson (proper : s.Proper) : read? s.toJson.text = some s := by
  rw [read?, Document.read?_text proper.toJson, Option.bind_some, ofDocument?_toJson proper]

theorem Proper.survives (proper : s.Proper) : s.Survives where
  document := ofDocument?_toJson proper
  text := read?_toJson proper
  rewritten := by rw [read?_toJson proper, Option.map_some]
  compiled := by
    intro s' read registry
    rw [read?_toJson proper] at read
    rw [Option.some.inj read]

/-! ### What has been read -/

theorem Holds.proper {fields : List (Option String × Document)} {name : String} {v : Json}
    (holds : Holds fields name Document.value? (some v))
    (grammatical : ∀ field ∈ fields, field.2.Grammatical) : v.Proper := by
  obtain ⟨d, only, value⟩ := holds
  have member : d ∈ under name fields := by rw [only]; exact List.mem_singleton_self d
  obtain ⟨field, among, rfl⟩ := List.mem_map.mp member
  exact (grammatical field (List.mem_of_mem_filter among)).proper value

theorem exists_of_ofDocument?_array {items : List Document}
    (read : ofDocument? (.array items) = some s) :
    ∃ fallback ∈ items, ∃ config ∈ items, fallback.value? = s.fallback ∧
      config.value? = some s.config := by
  match items with
  | [failMode, fallback, optimize, config] =>
    obtain ⟨mode, -, read⟩ := Option.bind_eq_some_iff.mp read
    obtain ⟨v, given, read⟩ := Option.bind_eq_some_iff.mp read
    obtain ⟨flag, -, read⟩ := Option.bind_eq_some_iff.mp read
    obtain ⟨template, body, read⟩ := Option.bind_eq_some_iff.mp read
    obtain rfl := Option.some.inj read
    exact ⟨fallback, by simp, config, by simp, given, body⟩
  | [] | [_] | [_, _] | [_, _, _] | _ :: _ :: _ :: _ :: _ :: _ => cases read

theorem proper_of_ofDocument? {d : Document} (grammatical : d.Grammatical)
    (read : ofDocument? d = some s) : s.Proper := by
  cases grammatical with
  | object each =>
    have describes := ofDocument?_object_iff.mp read
    refine ⟨fun v given => ?_, describes.config.proper each⟩
    have fallback := describes.fallback
    rw [given] at fallback
    exact fallback.proper each
  | array each =>
    obtain ⟨fallback, first, config, second, given, body⟩ := exists_of_ofDocument?_array read
    exact ⟨fun v same => (each fallback first).proper (given.trans same),
      (each config second).proper body⟩
  | _ => cases read

/-- What is written is read as it was: for all specifications of values such as JSON has, and so for
those that were read themselves. An object is read exactly if its fields describe a specification. -/
theorem reading_inverts_writing :
    (∀ s : Specification, s.Proper → s.Survives) ∧
    (∀ text s, read? text = some s → s.Survives) ∧
    (∀ d s, d.Grammatical → ofDocument? d = some s → s.Survives) ∧
    ∀ fields s, ofDocument? (.object fields) = some s ↔ Describes fields s := by
  refine ⟨fun s => Proper.survives, fun text s read => ?_, fun d s grammatical read => ?_,
    fun fields s => ofDocument?_object_iff⟩
  · obtain ⟨d, document, read⟩ := Option.bind_eq_some_iff.mp read
    exact (proper_of_ofDocument? (Document.grammatical_of_read? document) read).survives
  · exact (proper_of_ofDocument? grammatical read).survives

/-- Fields in another order, one of an unknown name, a default of null, and a template in which a key
is repeated. -/
def quayText : String :=
  "\x7b\"config\":\x7b\"x\":1E2,\"x\":\"a.b\"\x7d," ++
    "\"note\":[\"\\u00e9\",\x7b\x7d], \"default\":null\x7d"

def quay : Specification := ⟨.fail, some .null, true, .object [("x", .string "a.b")]⟩

/-- The same specification without its default is another one. -/
theorem reading_inverts_writing_quay :
    let absent : Specification := ⟨.fail, none, true, .object [("x", .string "a.b")]⟩
    read? quayText = some quay ∧ quay.Survives ∧ absent.Proper ∧ absent.Survives ∧
      quay.toJson.text = "\x7b\"fail_mode\":\"fail\",\"default\":null,\"optimize\":true," ++
        "\"config\":\x7b\"x\":\"a.b\"\x7d\x7d" ∧
      absent.toJson.text = "\x7b\"fail_mode\":\"fail\",\"optimize\":true," ++
        "\"config\":\x7b\"x\":\"a.b\"\x7d\x7d" := by
  intro absent
  have lexed : Json.tokens? quayText.toList = some [.mark .openObject,
      .string (some "config"), .mark .colon, .mark .openObject,
      .string (some "x"), .mark .colon, .number ⟨false, [1], none, some ⟨false, [2]⟩⟩, .mark .comma,
      .string (some "x"), .mark .colon, .string (some "a.b"), .mark .closeObject, .mark .comma,
      .string (some "note"), .mark .colon, .mark .openArray, .string (some "é"), .mark .comma,
      .mark .openObject, .mark .closeObject, .mark .closeArray, .mark .comma,
      .string (some "default"), .mark .colon, .null, .mark .closeObject] := by decide +kernel
  have read : read? quayText = some quay := by
    rw [read?, Document.read?, lexed]
    rfl
  have proper : absent.Proper :=
    ⟨by simp [absent], .object (by simp) (by simp [Json.Proper.string])⟩
  obtain ⟨written, reread, -, -⟩ := reading_inverts_writing
  exact ⟨read, reread quayText quay read, proper, written absent proper, by decide, by decide⟩

end Reshape.Specification
