import Mathlib.Data.String.Basic
import Mathlib.Data.List.Induction
import Mathlib.Data.List.Nodup
import Reshape.Fields

/-!
Fields in ascending order of their keys: what a write does to them, and that they are determined by
the pairs they hold. Fields in any order: fields with distinct keys are left as they are when they
are collected, so an order of the pairs is kept. The last value of a key, among pairs that may
repeat it.
-/

namespace Reshape.Fields

/-- What a write does, with any lawful comparison of the keys. -/
theorem lookup_insert {κ α : Type} [comparison : BEq κ] [LawfulBEq κ] [DecidableEq κ] (k key : κ)
    (v : α) (fields : List (κ × α)) :
    (insert k v fields).lookup key = if key = k then some v else fields.lookup key := by
  rw [lawful_beq_subsingleton comparison instBEqOfDecidableEq]
  split
  · rename_i same
    rw [same, lookup_insert_self]
  · rename_i different
    rw [lookup_insert_of_ne different]

theorem lookup_eq_none_iff {κ α : Type} [BEq κ] [LawfulBEq κ] {key : κ} {fields : List (κ × α)} :
    fields.lookup key = none ↔ key ∉ fields.map Prod.fst := by
  rw [List.lookup_eq_none_iff]
  simp only [List.mem_map, not_exists, not_and, bne_iff_ne]
  exact forall₂_congr fun field _ => ne_comm

section Ascending

variable {κ α : Type} [LinearOrder κ]

/-- The keys stand in ascending order, each once. -/
def Ascending (fields : List (κ × α)) : Prop := fields.Pairwise fun a b => a.1 < b.1

theorem mem_insertSorted {k : κ} {v : α} {fields : List (κ × α)} (ascending : Ascending fields)
    {field : κ × α} :
    field ∈ insertSorted k v fields ↔ field = (k, v) ∨ field.1 ≠ k ∧ field ∈ fields := by
  induction fields with
  | nil => simp [insertSorted]
  | cons first rest ih =>
    obtain ⟨k', v'⟩ := first
    obtain ⟨later, ascending⟩ := List.pairwise_cons.mp ascending
    -- The keys behind the first are above it, so none of them is at or below it.
    have above : k ≤ k' → ∀ other ∈ rest, other.1 ≠ k :=
      fun le other member => ne_of_gt (lt_of_le_of_lt le (later other member))
    rw [insertSorted]
    split_ifs with same below
    · subst same
      have absent := above le_rfl
      grind
    · have absent := above below.le
      grind
    · have rest := ih ascending
      grind

theorem mem_keys_insertSorted {k key : κ} {v : α} {fields : List (κ × α)}
    (ascending : Ascending fields) :
    key ∈ (insertSorted k v fields).map Prod.fst ↔ key = k ∨ key ∈ fields.map Prod.fst := by
  simp only [List.mem_map, mem_insertSorted ascending]
  constructor
  · rintro ⟨field, rfl | ⟨-, member⟩, rfl⟩
    · exact .inl rfl
    · exact .inr ⟨field, member, rfl⟩
  · rintro (rfl | ⟨field, member, rfl⟩)
    · exact ⟨_, .inl rfl, rfl⟩
    · by_cases same : field.1 = k
      · exact ⟨(k, v), .inl rfl, same.symm⟩
      · exact ⟨field, .inr ⟨same, member⟩, rfl⟩

theorem ascending_insertSorted (k : κ) (v : α) {fields : List (κ × α)}
    (ascending : Ascending fields) : Ascending (insertSorted k v fields) := by
  induction fields with
  | nil => simp [insertSorted, Ascending]
  | cons first rest ih =>
    obtain ⟨k', v'⟩ := first
    have ascending' := ascending
    rw [Ascending, List.pairwise_cons] at ascending'
    obtain ⟨above, later⟩ := ascending'
    rw [insertSorted]
    split_ifs with same below
    · subst same
      exact List.pairwise_cons.mpr ⟨above, later⟩
    · refine List.pairwise_cons.mpr ⟨?_, ascending⟩
      intro other member
      rcases List.mem_cons.mp member with rfl | member
      · exact below
      · exact lt_trans below (above other member)
    · refine List.pairwise_cons.mpr ⟨?_, ih later⟩
      intro other member
      rcases (mem_insertSorted later).mp member with rfl | ⟨-, member⟩
      · exact lt_of_le_of_ne (not_lt.mp below) (Ne.symm same)
      · exact above other member

/-- Ascending fields that hold the same pairs are the same. -/
theorem Ascending.ext {a b : List (κ × α)} (first : Ascending a) (second : Ascending b)
    (same : ∀ field, field ∈ a ↔ field ∈ b) : a = b := by
  have distinct {fields : List (κ × α)} (h : Ascending fields) : fields.Nodup := by
    apply List.Pairwise.imp _ h
    intro a b lt same
    subst same
    exact lt_irrefl _ lt
  refine List.Perm.eq_of_pairwise ?_ first second
    ((List.perm_ext_iff_of_nodup (distinct first) (distinct second)).mpr same)
  intro x y _ _ lt gt
  exact absurd (lt_trans lt gt) (lt_irrefl _)

end Ascending

/-! ### The last value of a key -/

section Last

variable {κ α : Type} {pairs : List (κ × α)} {k : κ} {v : α}

/-- The last pair with key `k` has the value `v`. -/
def Last (pairs : List (κ × α)) (k : κ) (v : α) : Prop :=
  ∃ earlier later, pairs = earlier ++ (k, v) :: later ∧ k ∉ later.map Prod.fst

theorem not_last_nil : ¬ Last ([] : List (κ × α)) k v := by
  rintro ⟨earlier, later, same, -⟩
  simp at same

theorem last_append_iff {later : List (κ × α)} :
    Last (pairs ++ later) k v ↔ Last later k v ∨ k ∉ later.map Prod.fst ∧ Last pairs k v := by
  constructor
  · rintro ⟨front, back, split, absent⟩
    rcases List.append_eq_append_iff.mp split with ⟨between, rfl, rfl⟩ | ⟨between, rfl, tail⟩
    · exact .inl ⟨between, back, rfl, absent⟩
    · cases between with
      | nil => exact .inl ⟨[], back, tail.symm, absent⟩
      | cons pair between =>
        rw [List.cons_append] at tail
        obtain ⟨rfl, rfl⟩ := List.cons.inj tail
        rw [List.map_append, List.mem_append, not_or] at absent
        exact .inr ⟨absent.2, front, between, rfl, absent.1⟩
  · rintro (⟨front, back, rfl, absent⟩ | ⟨absent, front, back, rfl, absent'⟩)
    · exact ⟨pairs ++ front, back, by simp, absent⟩
    · refine ⟨front, back ++ later, by simp, ?_⟩
      rw [List.map_append, List.mem_append, not_or]
      exact ⟨absent', absent⟩

theorem last_iff_mem (distinct : (pairs.map Prod.fst).Nodup) : Last pairs k v ↔ (k, v) ∈ pairs := by
  constructor
  · rintro ⟨earlier, later, rfl, -⟩
    simp
  · intro member
    obtain ⟨earlier, later, rfl⟩ := List.append_of_mem member
    refine ⟨earlier, later, rfl, ?_⟩
    rw [List.map_append, List.map_cons] at distinct
    exact (List.nodup_cons.mp distinct.of_append_right).1

theorem last_concat_iff {pair : κ × α} :
    Last (pairs ++ [pair]) k v ↔ pair = (k, v) ∨ pair.1 ≠ k ∧ Last pairs k v := by
  rw [last_append_iff, last_iff_mem (by simp), List.mem_singleton, List.map_singleton,
    List.mem_singleton, eq_comm (a := pair), ne_comm]

/-- Neighbours with different keys may change places. -/
theorem last_swap {front back : List (κ × α)} {first second : κ × α} (different : first.1 ≠ second.1) :
    Last (front ++ second :: first :: back) k v ↔ Last (front ++ first :: second :: back) k v := by
  have pair : Last [second, first] k v ↔ Last [first, second] k v := by
    rw [last_iff_mem (by simpa using different.symm), last_iff_mem (by simpa using different)]
    exact (List.Perm.swap first second []).mem_iff
  have keys : k ∉ (second :: first :: back).map Prod.fst ↔
      k ∉ (first :: second :: back).map Prod.fst :=
    not_congr ((List.Perm.swap first second back).map Prod.fst).mem_iff
  have tail : Last ([second, first] ++ back) k v ↔ Last ([first, second] ++ back) k v := by
    rw [last_append_iff, last_append_iff, pair]
  rw [last_append_iff, last_append_iff, keys]
  exact or_congr_left tail

theorem exists_last_iff : (∃ v, Last pairs k v) ↔ k ∈ pairs.map Prod.fst := by
  induction pairs using List.reverseRecOn with
  | nil => simp [not_last_nil]
  | append_singleton pairs pair ih =>
    simp only [last_concat_iff, List.map_append, List.mem_append, ← ih, List.map_singleton,
      List.mem_singleton]
    constructor
    · rintro ⟨v, rfl | ⟨-, last⟩⟩
      · exact .inr rfl
      · exact .inl ⟨v, last⟩
    · rintro (⟨v, last⟩ | rfl)
      · by_cases same : pair.1 = k
        · exact ⟨pair.2, .inl (by rw [← same])⟩
        · exact ⟨v, .inr ⟨same, last⟩⟩
      · exact ⟨pair.2, .inl rfl⟩

end Last

/-! ### Fields in another order -/

section Order

variable {κ α : Type}

/-- The same keys in any order, with related values under them. -/
inductive Reorders (R : α → α → Prop) : List (κ × α) → List (κ × α) → Prop
  | nil : Reorders R [] []
  | cons (key : κ) {a b : α} {as bs : List (κ × α)} :
      R a b → Reorders R as bs → Reorders R ((key, a) :: as) ((key, b) :: bs)
  | swap (first second : κ × α) (rest : List (κ × α)) :
      Reorders R (first :: second :: rest) (second :: first :: rest)
  | trans {as bs cs : List (κ × α)} : Reorders R as bs → Reorders R bs cs → Reorders R as cs

variable {R : α → α → Prop}

theorem Reorders.of_perm (same : ∀ a, R a a) {as bs : List (κ × α)} (perm : as.Perm bs) :
    Reorders R as bs := by
  induction perm with
  | nil => exact .nil
  | cons field _ ih => exact .cons field.1 (same field.2) ih
  | swap first second rest => exact .swap second first rest
  | trans _ _ first later => exact .trans first later

theorem Reorders.refl (same : ∀ a, R a a) (fields : List (κ × α)) : Reorders R fields fields :=
  .of_perm same (.refl fields)

theorem Reorders.keys {as bs : List (κ × α)} (reorders : Reorders R as bs) :
    (as.map Prod.fst).Perm (bs.map Prod.fst) := by
  induction reorders with
  | nil => exact .nil
  | cons key _ _ ih => exact ih.cons key
  | swap first second rest => exact .swap second.1 first.1 (rest.map Prod.fst)
  | trans _ _ first later => exact first.trans later

variable [DecidableEq κ]

theorem insert_of_notMem {k : κ} {fields : List (κ × α)} (absent : k ∉ fields.map Prod.fst) (v : α) :
    insert k v fields = fields ++ [(k, v)] := by
  induction fields with
  | nil => rfl
  | cons field rest ih =>
    rw [List.map_cons, List.mem_cons, not_or] at absent
    rw [insert, if_neg absent.1, ih absent.2, List.cons_append]

theorem collect_eq_self {pairs : List (κ × α)} (distinct : (pairs.map Prod.fst).Nodup) :
    collect pairs = pairs := by
  -- Induction on the pairs that are left; those before them have been written in their order.
  suffices written : ∀ before : List (κ × α), ((before ++ pairs).map Prod.fst).Nodup →
      pairs.foldl (fun fields pair => insert pair.1 pair.2 fields) before = before ++ pairs from
    written [] distinct
  clear distinct
  induction pairs with
  | nil => exact fun before _ => (List.append_nil before).symm
  | cons pair rest ih =>
    intro before distinct
    have absent : pair.1 ∉ before.map Prod.fst := by
      rw [List.map_append, List.nodup_append] at distinct
      exact fun among => distinct.2.2 pair.1 among pair.1 (by simp) rfl
    rw [List.append_cons] at distinct ⊢
    rw [List.foldl_cons, insert_of_notMem absent, ih _ distinct]

theorem nodup_keys_collect (pairs : List (κ × α)) : ((collect pairs).map Prod.fst).Nodup := by
  refine List.foldlRecOn pairs (fun fields pair => insert pair.1 pair.2 fields)
    (motive := fun fields : List (κ × α) => (fields.map Prod.fst).Nodup) .nil ?_
  intro fields distinct pair _
  rw [keys_insert]
  split
  · exact distinct
  · next absent => exact distinct.append (List.nodup_singleton _) (by simpa using absent)

theorem mem_of_mem_insert {k : κ} {v : α} {field : κ × α} {fields : List (κ × α)}
    (member : field ∈ insert k v fields) : field = (k, v) ∨ field ∈ fields := by
  induction fields with
  | nil => exact .inl (List.mem_singleton.mp member)
  | cons first rest ih =>
    rw [insert] at member
    split at member
    · exact (List.mem_cons.mp member).imp_right (List.mem_cons_of_mem _)
    · rcases List.mem_cons.mp member with rfl | member
      · exact .inr List.mem_cons_self
      · exact (ih member).imp_right (List.mem_cons_of_mem _)

theorem mem_of_mem_collect {pairs : List (κ × α)} {field : κ × α} (member : field ∈ collect pairs) :
    field ∈ pairs := by
  refine List.foldlRecOn pairs (fun fields pair => insert pair.1 pair.2 fields)
    (motive := fun fields : List (κ × α) => ∀ field ∈ fields, field ∈ pairs) (by simp) ?_ field member
  intro fields each pair among field member
  rcases mem_of_mem_insert member with rfl | member
  · exact among
  · exact each field member

/-- Collecting keeps an order of pairs with distinct keys, so it keeps what holds up to the order. -/
theorem Reorders.collect {as bs : List (κ × α)} (reorders : Reorders R as bs)
    (distinct : (as.map Prod.fst).Nodup) : Reorders R (Fields.collect as) (Fields.collect bs) := by
  rwa [collect_eq_self distinct, collect_eq_self (reorders.keys.nodup_iff.mp distinct)]

end Order

end Reshape.Fields
