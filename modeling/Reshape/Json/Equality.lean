import Reshape.Json.Basic

/-!
Equality of JSON values is decidable. It is equality as written: two objects with the same fields in
another order differ, and so do `1.0` and `1.00`.
-/

namespace Reshape.Json

mutual

/-- Whether two values are the same. -/
def same : Json → Json → Bool
  | null, null => true
  | bool a, bool b => a == b
  | number a, number b => a == b
  | string a, string b => a == b
  | array a, array b => sameItems a b
  | object a, object b => sameFields a b
  | _, _ => false

def sameItems : List Json → List Json → Bool
  | [], [] => true
  | v :: a, w :: b => same v w && sameItems a b
  | _, _ => false

def sameFields : List (String × Json) → List (String × Json) → Bool
  | [], [] => true
  | (k, v) :: a, (l, w) :: b => k == l && same v w && sameFields a b
  | _, _ => false

end

mutual

theorem same_self : (v : Json) → same v v = true
  | null => rfl
  | bool _ | number _ | string _ => by simp [same]
  | array items => by rw [same]; exact sameItems_self items
  | object fields => by rw [same]; exact sameFields_self fields

theorem sameItems_self : (items : List Json) → sameItems items items = true
  | [] => rfl
  | v :: rest => by simp [sameItems, same_self v, sameItems_self rest]

theorem sameFields_self : (fields : List (String × Json)) → sameFields fields fields = true
  | [] => rfl
  | (k, v) :: rest => by simp [sameFields, same_self v, sameFields_self rest]

end

mutual

theorem eq_of_same : {v w : Json} → same v w = true → v = w
  | null, w, h => by cases w <;> simp [same] at h ⊢
  | bool _, w, h => by cases w <;> simp [same] at h ⊢; exact h
  | number _, w, h => by cases w <;> simp [same] at h ⊢; exact h
  | string _, w, h => by cases w <;> simp [same] at h ⊢; exact h
  | array _, w, h => by cases w <;> simp [same] at h ⊢; exact eq_of_sameItems h
  | object _, w, h => by cases w <;> simp [same] at h ⊢; exact eq_of_sameFields h

theorem eq_of_sameItems : {a b : List Json} → sameItems a b = true → a = b
  | [], b, h => by cases b <;> simp [sameItems] at h ⊢
  | _ :: _, b, h => by
    cases b <;> simp [sameItems] at h ⊢
    exact ⟨eq_of_same h.1, eq_of_sameItems h.2⟩

theorem eq_of_sameFields : {a b : List (String × Json)} → sameFields a b = true → a = b
  | [], b, h => by cases b <;> simp [sameFields] at h ⊢
  | (_, _) :: _, b, h => by
    cases b <;> simp [sameFields] at h ⊢
    exact ⟨Prod.ext h.1.1 (eq_of_same h.1.2), eq_of_sameFields h.2⟩

end

instance : DecidableEq Json := fun v w =>
  if h : same v w = true then .isTrue (eq_of_same h)
  else .isFalse fun e => h (e ▸ same_self v)

end Reshape.Json
