import Reshape.Json.Document
import Reshape.Proofs.Fields
import Reshape.Proofs.Json.Tokens

/-!
Reading what was written. `read?_text` says that the document of a value is read from the value's
text, and `value?_ofJson` that the document has the value. The values of all texts are of the kind
that this is true of, by `grammatical_of_read?` and `Grammatical.proper`.
-/

namespace Reshape.Document

open Json (Token Mark Proper)

/-! ### The document of a value -/

mutual

/-- The document of a value's text. -/
def ofJson : Json → Document
  | .null => .null
  | .bool b => .bool b
  | .number n => .number n
  | .string s => .string (some s)
  | .array items => .array (ofItems items)
  | .object fields => .object (ofFields fields)

def ofItems : List Json → List Document
  | [] => []
  | v :: rest => ofJson v :: ofItems rest

def ofFields : List (String × Json) → List (Option String × Document)
  | [] => []
  | (k, v) :: rest => (some k, ofJson v) :: ofFields rest

end

theorem ofItems_eq (items : List Json) : ofItems items = items.map ofJson := by
  induction items with
  | nil => rfl
  | cons v rest ih => rw [ofItems, List.map_cons, ih]

theorem ofFields_eq (fields : List (String × Json)) :
    ofFields fields = fields.map fun field => (some field.1, ofJson field.2) := by
  induction fields with
  | nil => rfl
  | cons field rest ih => rw [ofFields, List.map_cons, ih]

/-! ### Reading the tokens of a value -/

/-- Where a value may start, the reader takes the tokens for this document and expects what follows
it. -/
def Reads (ts : List Token) (d : Document) : Prop :=
  ∀ r : Reader, r.expected = .value ∨ r.expected = .valueOrClose →
    ts.foldlM Reader.step? r = some ⟨r.frames, .separator d⟩

theorem step?_start {r : Reader} {t : Token}
    (starts : r.expected = .value ∨ r.expected = .valueOrClose) (other : t ≠ .mark .closeArray) :
    r.step? t = Reader.startValue? r.frames t := by
  obtain ⟨frames, expected⟩ := r
  rcases starts with rfl | rfl
  · rfl
  · cases t with
    | mark m => cases m <;> first | rfl | exact absurd rfl other
    | _ => rfl

theorem reads_single {t : Token} {d : Document} (other : t ≠ .mark .closeArray)
    (start : ∀ frames, Reader.startValue? frames t = some ⟨frames, .separator d⟩) :
    Reads [t] d := by
  intro r starts
  simp [step?_start starts other, start]

section Parts

variable {α : Type} {taken : α → List Token} {made : α → Document} {parts : List α}

/-- The items of an array that is open, up to its end. -/
theorem foldlM_items (each : ∀ part ∈ parts, Reads (taken part) (made part)) (nonempty : parts ≠ [])
    {r : Reader} {done : List Document} {frames : List Frame} (inside : r.frames = .array done :: frames)
    (starts : r.expected = .value ∨ r.expected = .valueOrClose) :
    ([Token.mark .comma].intercalate (parts.map taken) ++ [Token.mark .closeArray]).foldlM Reader.step? r =
      some ⟨frames, .separator (.array (done.reverse ++ parts.map made))⟩ := by
  -- Induction on the items that are left; those before them are in the frame, in reverse order.
  induction parts generalizing r done with
  | nil => exact absurd rfl nonempty
  | cons part rest ih =>
    rw [List.forall_mem_cons] at each
    have first := each.1 r starts
    rw [inside] at first
    cases rest with
    | nil =>
      rw [List.map_singleton, List.intercalate_singleton, List.foldlM_append, first]
      simp [Reader.step?, Reader.separate?]
    | cons next rest =>
      rw [List.map_cons, List.map_cons, List.intercalate_cons_cons, List.append_assoc,
        List.append_assoc, List.foldlM_append, first]
      have later := ih (r := ⟨.array (made part :: done) :: frames, .value⟩) each.2
        (List.cons_ne_nil _ _) rfl (.inl rfl)
      rw [List.reverse_cons, List.append_assoc] at later
      exact later

/-- The fields of an object that is open, up to its end. -/
theorem foldlM_fields {key : α → String} (each : ∀ part ∈ parts, Reads (taken part) (made part))
    (nonempty : parts ≠ []) {r : Reader} {done : List (Option String × Document)}
    {frames : List Frame}
    (starts : ∀ key, r.step? (.string key) = some ⟨frames, .colon done key⟩) :
    ([Token.mark .comma].intercalate (parts.map fun part =>
        .string (some (key part)) :: .mark .colon :: taken part) ++
      [Token.mark .closeObject]).foldlM Reader.step? r =
        some ⟨frames, .separator
          (.object (done.reverse ++ parts.map fun part => (some (key part), made part)))⟩ := by
  induction parts generalizing r done with
  | nil => exact absurd rfl nonempty
  | cons part rest ih =>
    rw [List.forall_mem_cons] at each
    have first := each.1 ⟨.object done (some (key part)) :: frames, .value⟩ (.inl rfl)
    have named : (Token.string (some (key part)) :: .mark .colon :: taken part).foldlM Reader.step? r =
        some ⟨.object done (some (key part)) :: frames, .separator (made part)⟩ := by
      rw [List.foldlM_cons, starts]
      exact first
    cases rest with
    | nil =>
      rw [List.map_singleton, List.intercalate_singleton, List.foldlM_append, named]
      simp [Reader.step?, Reader.separate?]
    | cons next rest =>
      rw [List.map_cons, List.map_cons, List.intercalate_cons_cons, List.append_assoc,
        List.append_assoc, List.foldlM_append, named]
      have later := ih (r := ⟨frames, .key ((some (key part), made part) :: done)⟩) each.2
        (List.cons_ne_nil _ _) fun _ => rfl
      rw [List.reverse_cons, List.append_assoc] at later
      exact later

theorem reads_array (each : ∀ part ∈ parts, Reads (taken part) (made part)) :
    Reads (.mark .openArray :: [Token.mark .comma].intercalate (parts.map taken) ++
      [Token.mark .closeArray]) (.array (parts.map made)) := by
  intro r starts
  rw [List.cons_append, List.foldlM_cons, step?_start starts (by decide)]
  cases parts with
  | nil => rfl
  | cons part rest =>
    exact foldlM_items (r := ⟨.array [] :: r.frames, .valueOrClose⟩) each (List.cons_ne_nil _ _) rfl
      (.inr rfl)

theorem reads_object {key : α → String} (each : ∀ part ∈ parts, Reads (taken part) (made part)) :
    Reads (.mark .openObject :: [Token.mark .comma].intercalate (parts.map fun part =>
        .string (some (key part)) :: .mark .colon :: taken part) ++ [Token.mark .closeObject])
      (.object (parts.map fun part => (some (key part), made part))) := by
  intro r starts
  rw [List.cons_append, List.foldlM_cons, step?_start starts (by decide)]
  cases parts with
  | nil => rfl
  | cons part rest =>
    exact foldlM_fields (r := ⟨r.frames, .keyOrClose⟩) each (List.cons_ne_nil _ _) fun _ => rfl

end Parts

theorem reads_tokens {v : Json} (proper : v.Proper) : Reads v.tokens (ofJson v) := by
  induction proper with
  | null => exact reads_single (by decide) fun _ => rfl
  | bool b => exact reads_single (by simp) fun _ => rfl
  | number => exact reads_single (by simp) fun _ => rfl
  | string s => exact reads_single (by simp) fun _ => rfl
  | array _ ih =>
    rw [Json.tokens, Json.itemTokens_eq, ofJson, ofItems_eq]
    exact reads_array ih
  | object _ _ ih =>
    rw [Json.tokens, Json.fieldTokens_eq, ofJson, ofFields_eq]
    exact reads_object ih

/-! ### Values -/

theorem itemValues?_eq_some_iff {items : List Document} {vs : List Json} :
    itemValues? items = some vs ↔ List.Forall₂ (fun d v => d.value? = some v) items vs := by
  induction items generalizing vs with
  | nil => rw [itemValues?, Option.some_inj, List.forall₂_nil_left_iff, eq_comm]
  | cons d rest ih =>
    rw [List.forall₂_cons_left_iff]
    constructor
    · intro read
      obtain ⟨v, first, read⟩ := Option.bind_eq_some_iff.mp read
      obtain ⟨later, remaining, read⟩ := Option.bind_eq_some_iff.mp read
      exact ⟨v, later, first, ih.mp remaining, (Option.some.inj read).symm⟩
    · rintro ⟨v, later, first, remaining, rfl⟩
      rw [itemValues?, first, ih.mpr remaining]
      rfl

theorem fieldValues?_eq_some_iff {fields : List (Option String × Document)}
    {pairs : List (String × Json)} :
    fieldValues? fields = some pairs ↔
      List.Forall₂ (fun field pair => field.1 = some pair.1 ∧ field.2.value? = some pair.2) fields
        pairs := by
  induction fields generalizing pairs with
  | nil => rw [fieldValues?, Option.some_inj, List.forall₂_nil_left_iff, eq_comm]
  | cons field rest ih =>
    obtain ⟨key, d⟩ := field
    rw [List.forall₂_cons_left_iff]
    constructor
    · intro read
      obtain ⟨name, named, read⟩ := Option.bind_eq_some_iff.mp read
      obtain ⟨v, first, read⟩ := Option.bind_eq_some_iff.mp read
      obtain ⟨later, remaining, read⟩ := Option.bind_eq_some_iff.mp read
      exact ⟨(name, v), later, ⟨named, first⟩, ih.mp remaining, (Option.some.inj read).symm⟩
    · rintro ⟨⟨name, v⟩, later, ⟨rfl, first⟩, remaining, rfl⟩
      rw [fieldValues?, first, ih.mpr remaining]
      rfl

theorem value?_ofJson {v : Json} (proper : v.Proper) : (ofJson v).value? = some v := by
  induction proper with
  | @array items _ ih =>
    have values : itemValues? (items.map ofJson) = some items :=
      itemValues?_eq_some_iff.mpr (List.forall₂_map_left_iff.mpr (List.forall₂_same.mpr ih))
    rw [ofJson, ofItems_eq, value?, values, Option.map_some]
  | @object fields distinct _ ih =>
    have values : fieldValues? (fields.map fun field => (some field.1, ofJson field.2)) =
        some fields :=
      fieldValues?_eq_some_iff.mpr (List.forall₂_map_left_iff.mpr
        (List.forall₂_same.mpr fun field member => ⟨rfl, ih field member⟩))
    rw [ofJson, ofFields_eq, value?, values, Option.map_some, Fields.collect_eq_self distinct]
  | _ => rfl

theorem read?_text {v : Json} (proper : v.Proper) : read? v.text = some (ofJson v) := by
  have run := reads_tokens proper ⟨[], .value⟩ (.inl rfl)
  rw [read?, proper.tokens?_text]
  simp [run, Reader.result?]

/-! ### Values of texts -/

/-- Every number follows JSON's grammar. -/
inductive Grammatical : Document → Prop
  | null : Grammatical .null
  | bool (b : Bool) : Grammatical (.bool b)
  | number {n : Numeral} : n.isJson → Grammatical (.number n)
  | string (s : Option String) : Grammatical (.string s)
  | array {items : List Document} : (∀ d ∈ items, Grammatical d) → Grammatical (.array items)
  | object {fields : List (Option String × Document)} : (∀ field ∈ fields, Grammatical field.2) →
    Grammatical (.object fields)

theorem Grammatical.proper {d : Document} (grammatical : d.Grammatical) {v : Json}
    (read : d.value? = some v) : v.Proper := by
  induction grammatical generalizing v with
  | null => exact Option.some.inj read ▸ .null
  | bool b => exact Option.some.inj read ▸ .bool b
  | number json => exact Option.some.inj read ▸ .number json
  | string s =>
    obtain ⟨s, -, rfl⟩ := Option.map_eq_some_iff.mp read
    exact .string s
  | array _ ih =>
    obtain ⟨vs, items, rfl⟩ := Option.map_eq_some_iff.mp read
    refine .array fun v member => ?_
    obtain ⟨d, among, same⟩ := exists_of_mem_right (itemValues?_eq_some_iff.mp items) member
    exact ih d among same
  | object _ ih =>
    obtain ⟨pairs, fields, rfl⟩ := Option.map_eq_some_iff.mp read
    refine .object (Fields.nodup_keys_collect pairs) fun field member => ?_
    obtain ⟨written, among, -, same⟩ :=
      exists_of_mem_right (fieldValues?_eq_some_iff.mp fields) (Fields.mem_of_mem_collect member)
    exact ih written among same

def Frame.Grammatical : Frame → Prop
  | .array items => ∀ d ∈ items, d.Grammatical
  | .object fields _ => ∀ field ∈ fields, field.2.Grammatical

def Expected.Grammatical : Expected → Prop
  | .key fields | .colon fields _ => ∀ field ∈ fields, field.2.Grammatical
  | .separator d => d.Grammatical
  | _ => True

namespace Reader

/-- All that the reader has read so far is grammatical. -/
structure Grammatical (r : Reader) : Prop where
  frames : ∀ frame ∈ r.frames, frame.Grammatical
  expected : r.expected.Grammatical

variable {frames : List Frame} {r r' : Reader} {t : Token}

theorem startValue?_grammatical (each : ∀ frame ∈ frames, frame.Grammatical)
    (token : t.Grammatical) (step : startValue? frames t = some r') : r'.Grammatical := by
  cases t with
  | mark m =>
    cases m with
    | openArray =>
      cases step
      exact ⟨List.forall_mem_cons.mpr ⟨by simp [Frame.Grammatical], each⟩, trivial⟩
    | openObject =>
      cases step
      exact ⟨each, trivial⟩
    | _ => cases step
  | null =>
    cases step
    exact ⟨each, .null⟩
  | bool b =>
    cases step
    exact ⟨each, .bool b⟩
  | number n =>
    cases step
    exact ⟨each, .number token⟩
  | string s =>
    cases step
    exact ⟨each, .string s⟩

theorem separate?_grammatical {d : Document} {m : Mark} (each : ∀ frame ∈ frames, frame.Grammatical)
    (value : d.Grammatical) (step : separate? frames d m = some r') : r'.Grammatical := by
  cases frames with
  | nil => cases m <;> cases step
  | cons frame frames =>
    obtain ⟨inside, outside⟩ := List.forall_mem_cons.mp each
    cases frame with
    | array items =>
      have complete : ∀ item ∈ d :: items, item.Grammatical :=
        List.forall_mem_cons.mpr ⟨value, inside⟩
      cases m with
      | comma =>
        cases step
        exact ⟨List.forall_mem_cons.mpr ⟨complete, outside⟩, trivial⟩
      | closeArray =>
        cases step
        exact ⟨outside, .array fun item member => complete item (List.mem_reverse.mp member)⟩
      | _ => cases step
    | object fields key =>
      have complete : ∀ field ∈ (key, d) :: fields, field.2.Grammatical :=
        List.forall_mem_cons.mpr ⟨value, inside⟩
      cases m with
      | comma =>
        cases step
        exact ⟨outside, complete⟩
      | closeObject =>
        cases step
        exact ⟨outside, .object fun field member => complete field (List.mem_reverse.mp member)⟩
      | _ => cases step

theorem step?_grammatical (grammatical : r.Grammatical) (token : t.Grammatical)
    (step : r.step? t = some r') : r'.Grammatical := by
  obtain ⟨frames, expected⟩ := r
  obtain ⟨each, inside⟩ := grammatical
  cases expected with
  | value => exact startValue?_grammatical each token step
  | valueOrClose =>
    by_cases closing : t = .mark .closeArray
    · subst closing
      obtain _ | ⟨_ | _, frames⟩ := frames
      · cases step
      · cases step
        exact ⟨(List.forall_mem_cons.mp each).2, .array (by simp)⟩
      · cases step
    · rw [step?_start (.inr rfl) closing] at step
      exact startValue?_grammatical each token step
  | keyOrClose =>
    cases t with
    | string key =>
      cases step
      exact ⟨each, by simp [Expected.Grammatical]⟩
    | mark m =>
      cases m with
      | closeObject =>
        cases step
        exact ⟨each, .object (by simp)⟩
      | _ => cases step
    | _ => cases step
  | key fields =>
    cases t with
    | string key =>
      cases step
      exact ⟨each, inside⟩
    | _ => cases step
  | colon fields key =>
    cases t with
    | mark m =>
      cases m with
      | colon =>
        cases step
        exact ⟨List.forall_mem_cons.mpr ⟨inside, each⟩, trivial⟩
      | _ => cases step
    | _ => cases step
  | separator d =>
    cases t with
    | mark m => exact separate?_grammatical each inside step
    | _ => cases step

theorem result?_grammatical (grammatical : r.Grammatical) {d : Document}
    (result : r.result? = some d) : d.Grammatical := by
  obtain ⟨frames, expected⟩ := r
  unfold result? at result
  split at result
  · next _ value _ done =>
    obtain rfl : expected = _ := done
    cases result
    exact grammatical.expected
  · cases result

end Reader

theorem grammatical_of_read? {s : String} {d : Document} (read : read? s = some d) :
    d.Grammatical := by
  obtain ⟨ts, lexed, read⟩ := Option.bind_eq_some_iff.mp read
  obtain ⟨r, run, result⟩ := Option.bind_eq_some_iff.mp read
  have start : Reader.Grammatical ⟨[], .value⟩ := ⟨by simp, trivial⟩
  have done : r.Grammatical := foldlM_invariant
    (fun _ t _ member fine => Reader.step?_grammatical fine (Json.grammatical_of_tokens? lexed t member))
    start run
  exact Reader.result?_grammatical done result

end Reshape.Document
