/-!
Ordered fields: association lists in which a key keeps the place of its first insertion and holds
the value of its last. Reading is `List.lookup`; the lemmas say what `insert` does to it.
-/

namespace Reshape.Fields

variable {κ α : Type} [DecidableEq κ]

/-- Writes `v` under `k`: in place where the key stands already, else at the end. -/
def insert (k : κ) (v : α) : List (κ × α) → List (κ × α)
  | [] => [(k, v)]
  | (k', v') :: rest => if k = k' then (k, v) :: rest else (k', v') :: insert k v rest

/-- All pairs written in order. -/
def collect (pairs : List (κ × α)) : List (κ × α) :=
  pairs.foldl (fun fields pair => insert pair.1 pair.2 fields) []

/-- Writes `v` under `k` into fields kept in ascending order of their keys. -/
def insertSorted [LT κ] [DecidableLT κ] (k : κ) (v : α) : List (κ × α) → List (κ × α)
  | [] => [(k, v)]
  | (k', v') :: rest =>
    if k = k' then (k, v) :: rest
    else if k < k' then (k, v) :: (k', v') :: rest
    else (k', v') :: insertSorted k v rest

theorem lookup_insert_self (k : κ) (v : α) (fields : List (κ × α)) :
    (insert k v fields).lookup k = some v := by
  induction fields with
  | nil => simp [insert]
  | cons field rest ih =>
    obtain ⟨k', v'⟩ := field
    by_cases h : k = k'
    · simp [insert, h]
    · simp [insert, List.lookup_cons, beq_false_of_ne h, h, ih]

theorem lookup_insert_of_ne {k key : κ} (different : key ≠ k) (v : α) (fields : List (κ × α)) :
    (insert k v fields).lookup key = fields.lookup key := by
  induction fields with
  | nil => simp [insert, List.lookup_cons, beq_false_of_ne different]
  | cons field rest ih =>
    obtain ⟨k', v'⟩ := field
    by_cases h : k = k'
    · subst h
      simp [insert, List.lookup_cons, beq_false_of_ne different]
    · simp [insert, h, List.lookup_cons, ih]

/-- A new key goes to the end; a known one moves nothing. -/
theorem keys_insert (k : κ) (v : α) (fields : List (κ × α)) :
    (insert k v fields).map Prod.fst =
      if k ∈ fields.map Prod.fst then fields.map Prod.fst else fields.map Prod.fst ++ [k] := by
  induction fields with
  | nil => simp [insert]
  | cons field rest ih =>
    by_cases h : k = field.1
    · simp [insert, h]
    · by_cases m : k ∈ rest.map Prod.fst <;> simp_all [insert]

end Reshape.Fields
