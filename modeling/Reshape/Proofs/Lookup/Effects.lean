import Reshape.Proofs.Except
import Reshape.Proofs.Fields
import Reshape.Proofs.Table
import Reshape.Registry

/-!
What lookups do to the prefix table: the built-in ones ignore it, and a custom one may be asked to
keep what it finds there.
-/

namespace Reshape

namespace Lookup

def KeepsEntries (l : Lookup) : Prop :=
  ∀ scope node t path, t.contains path → (l.evaluate scope node t).2.contains path

/-- What the lookup gives depends on the node and on the data around it alone, and the table is left
as it is. -/
def IgnoresTable (l : Lookup) : Prop :=
  ∀ scope node t, l.evaluate scope node t = ((l.evaluate scope node .empty).1, t)

/-- The lookup does the same whatever the data of the whole call is. -/
def IgnoresSuperRoot (l : Lookup) : Prop :=
  ∀ scope superRoot node t, l.evaluate { scope with superRoot } node t = l.evaluate scope node t

/-- One of the lookups that every registry of built-ins has. -/
def IsBuiltin : Lookup → Prop
  | key _ | find _ | cast _ | arith _ => True
  | memo _ | custom _ => False

theorem IsBuiltin.ignoresTable {l : Lookup} (builtin : l.IsBuiltin) : l.IgnoresTable := by
  cases l with
  | memo | custom => cases builtin
  | _ => exact fun _ _ _ => rfl

theorem IgnoresTable.keepsEntries {l : Lookup} (ignores : l.IgnoresTable) : l.KeepsEntries := by
  intro scope node t path held
  rwa [ignores]

theorem ignoresSuperRoot_of_kind {l : Lookup} (known : l.kind ≠ "custom") :
    l.IgnoresSuperRoot := by
  cases l with
  | custom run => exact absurd rfl known
  | _ => exact fun _ _ _ _ => rfl

/-! ### Missing memos -/

theorem key_ne_missingMemo (key : String) (node : Json) (path : String) :
    Key.evaluate key node ≠ .error (.missingMemo path) := by
  unfold Key.evaluate
  repeat' split
  all_goals simp

theorem find_ne_missingMemo (conditions : List Find.Condition) (node : Json) (path : String) :
    Find.evaluate conditions node ≠ .error (.missingMemo path) := by
  unfold Find.evaluate
  repeat' split
  all_goals simp

theorem cast_ne_missingMemo (target : ScalarType) (node : Json) (path : String) :
    Cast.evaluate target node ≠ .error (.missingMemo path) := by
  unfold Cast.evaluate
  split <;> simp

theorem operandLike_ne_missingMemo (a : Arithmetic) (value : Arithmetic.Quantity)
    (path : String) : a.operandLike value ≠ .error (.missingMemo path) := by
  unfold Arithmetic.operandLike
  dsimp only
  split <;> simp

theorem arith_ne_missingMemo (a : Arithmetic) (node : Json) (path : String) :
    a.evaluate node ≠ .error (.missingMemo path) := by
  intro h
  unfold Arithmetic.evaluate at h
  split at h
  · simp only [bind_eq_error_iff, mapError_eq_error_iff, pure, Except.pure] at h
    rcases h with ⟨_, _, h⟩ | ⟨value, -, h | ⟨operand, -, ⟨_, _, h⟩ | ⟨result, -, ⟨_, _, h⟩ | h⟩⟩⟩
    · cases h
    · exact operandLike_ne_missingMemo a value path h
    · cases h
    · cases h
    · obtain ⟨_, -, h⟩ := h
      cases h
  · cases h

theorem IsBuiltin.ne_missingMemo {l : Lookup} (builtin : l.IsBuiltin) (scope : Scope) (node : Json)
    (t : Table) (path : String) : (l.evaluate scope node t).1 ≠ .error (.missingMemo path) := by
  cases l with
  | key k => exact key_ne_missingMemo k node path
  | find conditions => exact find_ne_missingMemo conditions node path
  | cast target => exact cast_ne_missingMemo target node path
  | arith a => exact arith_ne_missingMemo a node path
  | memo | custom => cases builtin

end Lookup

namespace Registry

/-- The registry gives this lookup to some step. -/
def Makes (r : Registry) (l : Lookup) : Prop := ∃ name a, r.construct name a = .ok l

theorem construct_eq_ok_iff {r : Registry} {name : Option String} {a : Arguments} {l : Lookup} :
    r.construct name a = .ok l ↔ ∃ make, r.entries.lookup name = some make ∧ make a = .ok l := by
  rw [construct, bind_eq_ok_iff, resolve]
  split <;> simp [*]

theorem not_makes_empty (name : String) (l : Lookup) : ¬ (empty name).Makes l := by
  rintro ⟨entry, a, made⟩
  obtain ⟨make, known, -⟩ := construct_eq_ok_iff.mp made
  cases known

theorem makes_register {r : Registry} {name : Option String} {make : LookupMaker} {l : Lookup}
    (makes : (r.register name make).Makes l) : (∃ a, make a = .ok l) ∨ r.Makes l := by
  obtain ⟨entry, a, made⟩ := makes
  obtain ⟨maker, known, made⟩ := construct_eq_ok_iff.mp made
  simp only [register, Fields.lookup_insert] at known
  split at known
  · obtain rfl := Option.some.inj known
    exact .inl ⟨a, made⟩
  · exact .inr ⟨entry, a, construct_eq_ok_iff.mpr ⟨maker, known, made⟩⟩

theorem isBuiltin_of_makes {name : String} {l : Lookup} (makes : (builtins name).Makes l) :
    l.IsBuiltin := by
  rcases makes_register makes with ⟨a, made⟩ | makes
  · obtain ⟨_, -, rfl⟩ := map_eq_ok_iff.mp made
    trivial
  rcases makes_register makes with ⟨a, made⟩ | makes
  · obtain ⟨_, -, rfl⟩ := map_eq_ok_iff.mp made
    trivial
  rcases makes_register makes with ⟨a, made⟩ | makes
  · obtain ⟨_, -, rfl⟩ := map_eq_ok_iff.mp made
    trivial
  rcases makes_register makes with ⟨a, made⟩ | makes
  · obtain ⟨_, -, rfl⟩ := map_eq_ok_iff.mp made
    trivial
  · exact absurd makes (not_makes_empty name l)

end Registry

end Reshape
