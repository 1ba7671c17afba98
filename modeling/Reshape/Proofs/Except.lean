import Mathlib.Data.List.Forall2

/-!
Programs that may fail: when a sequence of steps gives a result, which failure it has, and when one
program does as another.
-/

namespace Reshape

variable {α α' β β' ε ε' : Type}

theorem pure_eq_ok_iff {x y : α} : (pure x : Except ε α) = .ok y ↔ x = y := by
  simp [pure, Except.pure]

theorem toOption_eq_some_iff {x : Except ε α} {a : α} : x.toOption = some a ↔ x = .ok a := by
  cases x with
  | ok b => exact ⟨fun same => congrArg Except.ok (Option.some.inj same),
      fun same => congrArg some (Except.ok.inj same)⟩
  | error e => constructor <;> intro found <;> cases found

theorem bind_eq_ok_iff {x : Except ε α} {f : α → Except ε β} {b : β} :
    x >>= f = .ok b ↔ ∃ a, x = .ok a ∧ f a = .ok b := by
  cases x <;> simp [bind, Except.bind]

theorem bind_eq_error_iff {x : Except ε α} {f : α → Except ε β} {e : ε} :
    x >>= f = .error e ↔ x = .error e ∨ ∃ a, x = .ok a ∧ f a = .error e := by
  cases x <;> simp [bind, Except.bind]

theorem map_eq_ok_iff {x : Except ε α} {f : α → β} {b : β} :
    f <$> x = .ok b ↔ ∃ a, x = .ok a ∧ f a = b := by
  cases x <;> simp [Functor.map, Except.map]

theorem map_eq_error_iff {x : Except ε α} {f : α → β} {e : ε} :
    f <$> x = .error e ↔ x = .error e := by
  cases x <;> simp [Functor.map, Except.map]

theorem mapError_eq_ok_iff {x : Except ε α} {f : ε → ε'} {a : α} :
    x.mapError f = .ok a ↔ x = .ok a := by
  cases x <;> simp [Except.mapError]

theorem mapError_eq_error_iff {x : Except ε α} {f : ε → ε'} {e : ε'} :
    x.mapError f = .error e ↔ ∃ cause, x = .error cause ∧ f cause = e := by
  cases x <;> simp [Except.mapError]

theorem mapM_eq_ok_iff {f : α → Except ε β} {xs : List α} {ys : List β} :
    xs.mapM f = .ok ys ↔ List.Forall₂ (fun x y => f x = .ok y) xs ys := by
  induction xs generalizing ys with
  | nil => rw [List.mapM_nil, pure_eq_ok_iff, List.forall₂_nil_left_iff, eq_comm]
  | cons x xs ih =>
    simp only [List.mapM_cons, bind_eq_ok_iff, pure_eq_ok_iff, List.forall₂_cons_left_iff, ih]
    constructor
    · rintro ⟨y, first, rest, remaining, rfl⟩
      exact ⟨y, rest, first, remaining, rfl⟩
    · rintro ⟨y, rest, first, remaining, rfl⟩
      exact ⟨y, first, rest, remaining, rfl⟩

theorem exists_of_mem_right {R : α → β → Prop} {xs : List α} {ys : List β}
    (each : List.Forall₂ R xs ys) {y : β} (member : y ∈ ys) : ∃ x ∈ xs, R x y := by
  induction each with
  | nil => cases member
  | cons first _ ih =>
    rcases List.mem_cons.mp member with rfl | member
    · exact ⟨_, List.mem_cons_self, first⟩
    · obtain ⟨x, found, h⟩ := ih member
      exact ⟨x, List.mem_cons_of_mem _ found, h⟩

/-- What every step keeps, a run keeps. -/
theorem foldlM_invariant {σ : Type} {f : σ → α → Option σ} {P : σ → Prop} {xs : List α}
    (step : ∀ s x s', x ∈ xs → P s → f s x = some s' → P s') {s s' : σ} (start : P s)
    (run : xs.foldlM f s = some s') : P s' := by
  induction xs generalizing s with
  | nil => exact Option.some.inj run ▸ start
  | cons x xs ih =>
    rw [List.foldlM_cons] at run
    obtain ⟨next, first, rest⟩ := Option.bind_eq_some_iff.mp run
    exact ih (fun s y s' member => step s y s' (List.mem_cons_of_mem x member))
      (step s x next List.mem_cons_self start first) rest

theorem exists_append_of_forall₂ {R : α → β → Prop} {xs : List α} {ys zs : List β}
    (each : List.Forall₂ R xs (ys ++ zs)) :
    ∃ front back, List.Forall₂ R front ys ∧ List.Forall₂ R back zs ∧ front ++ back = xs :=
  ⟨_, _, List.forall₂_take_append xs ys zs each, List.forall₂_drop_append xs ys zs each,
    List.take_append_drop ys.length xs⟩

theorem exists_of_mem_mapM {f : α → Except ε β} {xs : List α} {ys : List β}
    (h : xs.mapM f = .ok ys) {y : β} (member : y ∈ ys) : ∃ x ∈ xs, f x = .ok y :=
  exists_of_mem_right (mapM_eq_ok_iff.mp h) member

/-! ### The error of a program -/

/-- The error, if the program fails. -/
def failure? : Except ε α → Option ε
  | .ok _ => none
  | .error e => some e

theorem failure?_eq_some_iff {x : Except ε α} {e : ε} : failure? x = some e ↔ x = .error e := by
  cases x <;> simp [failure?]

theorem failure?_eq_none_iff {x : Except ε α} : failure? x = none ↔ ∃ a, x = .ok a := by
  cases x <;> simp [failure?]

theorem failure?_map (f : α → β) (x : Except ε α) : failure? (f <$> x) = failure? x := by
  cases x <;> rfl

/-- Of two programs in turn the first one's error counts, if what the second does fails the same for
all results of the first. -/
theorem failure?_bind {x : Except ε α} {f : α → Except ε β} {later : Option ε}
    (same : ∀ a, failure? (f a) = later) : failure? (x >>= f) = (failure? x).or later := by
  cases x with
  | ok a => exact same a
  | error e => rfl

/-! ### Programs that agree but for excused failures -/

/-- The second program does as the first, unless the first fails and is excused. -/
def Refines (excused : ε → Prop) (x y : Except ε α) : Prop :=
  x = y ∨ ∃ e, excused e ∧ x = .error e

section Refines

variable {excused : ε → Prop}

theorem Refines.refl (x : Except ε α) : Refines excused x x := .inl rfl

theorem Refines.bind {x y : Except ε α} {f g : α → Except ε β} (first : Refines excused x y)
    (later : ∀ a, Refines excused (f a) (g a)) : Refines excused (x >>= f) (y >>= g) := by
  rcases first with rfl | ⟨e, fine, rfl⟩
  · cases x with
    | error e => exact .inl rfl
    | ok a => exact later a
  · exact .inr ⟨e, fine, rfl⟩

theorem Refines.mapM {f g : α → Except ε β} (each : ∀ a, Refines excused (f a) (g a))
    (xs : List α) : Refines excused (xs.mapM f) (xs.mapM g) := by
  induction xs with
  | nil => exact .refl _
  | cons x xs ih =>
    rw [List.mapM_cons, List.mapM_cons]
    exact (each x).bind fun y => ih.bind fun ys => .refl _

theorem Refines.eq_ok {x y : Except ε α} {a : α} (refines : Refines excused x y) (h : x = .ok a) :
    y = .ok a := by
  rcases refines with rfl | ⟨e, -, rfl⟩
  · exact h
  · cases h

/-- Where nothing is excused the programs are the same. -/
theorem Refines.eq {x y : Except ε α} (refines : Refines (fun _ => False) x y) : x = y := by
  rcases refines with same | ⟨_, never, _⟩
  · exact same
  · exact never.elim

end Refines

/-! ### Programs that fail together -/

/-- Both programs give results, which are related, or both fail. -/
inductive Agree (R : α → α' → Prop) : Except ε α → Except ε α' → Prop
  | ok {a : α} {b : α'} : R a b → Agree R (.ok a) (.ok b)
  | error (e e' : ε) : Agree R (.error e) (.error e')

section Agree

variable {R : α → α' → Prop}

theorem Agree.refl {R : α → α → Prop} (same : ∀ a, R a a) (x : Except ε α) : Agree R x x := by
  cases x with
  | error e => exact .error e e
  | ok a => exact .ok (same a)

theorem Agree.trans {α'' : Type} {S : α' → α'' → Prop} {T : α → α'' → Prop} {x : Except ε α}
    {y : Except ε α'} {z : Except ε α''} (first : Agree R x y) (later : Agree S y z)
    (compose : ∀ a b c, R a b → S b c → T a c) : Agree T x z := by
  cases first with
  | error e _ =>
    cases later
    exact .error e _
  | ok related =>
    cases later with
    | ok related' => exact .ok (compose _ _ _ related related')

theorem Agree.bind {S : β → β' → Prop} {x : Except ε α} {y : Except ε α'} {f : α → Except ε β}
    {g : α' → Except ε β'} (first : Agree R x y)
    (later : ∀ a b, x = .ok a → R a b → Agree S (f a) (g b)) : Agree S (x >>= f) (y >>= g) := by
  cases first with
  | error e e' => exact .error e e'
  | ok related => exact later _ _ rfl related

theorem Agree.map {S : β → β' → Prop} {x : Except ε α} {y : Except ε α'} {f : α → β} {g : α' → β'}
    (first : Agree R x y) (later : ∀ a b, x = .ok a → R a b → S (f a) (g b)) :
    Agree S (x.map f) (y.map g) := by
  cases first with
  | error e e' => exact .error e e'
  | ok related => exact .ok (later _ _ rfl related)

theorem Agree.mapM {f : β → Except ε α} {g : β → Except ε α'} (each : ∀ b, Agree R (f b) (g b))
    (xs : List β) : Agree (List.Forall₂ R) (xs.mapM f) (xs.mapM g) := by
  induction xs with
  | nil => exact .ok .nil
  | cons x xs ih =>
    rw [List.mapM_cons, List.mapM_cons]
    exact (each x).bind fun _ _ _ related => ih.bind fun _ _ _ rest => .ok (.cons related rest)

end Agree

/-! ### Traversals that stop at the first failure -/

/-- The elements that a traversal comes to. -/
def attempted (f : α → Except ε β) : List α → List α
  | [] => []
  | x :: xs => x :: match f x with
    | .ok _ => attempted f xs
    | .error _ => []

theorem map_mapM_of_attempted {γ : Type} {f : α → Except ε β} {g : α → Except ε γ} {k : β → γ}
    {xs : List α} (same : ∀ x ∈ attempted f xs, (f x).map k = g x) :
    (xs.mapM f).map (List.map k) = xs.mapM g := by
  induction xs with
  | nil => rfl
  | cons x xs ih =>
    rw [attempted, List.forall_mem_cons] at same
    rw [List.mapM_cons, List.mapM_cons, ← same.1]
    cases first : f x with
    | error e => rfl
    | ok y =>
      rw [first] at same
      rw [Except.map, ← ih same.2]
      cases xs.mapM f <;> rfl

theorem mapM_eq_error_of_first {f : α → Except ε β} {before after : List α} {x : α} {e : ε}
    (passed : ∀ y ∈ before, ∃ b, f y = .ok b) (failed : f x = .error e) :
    (before ++ x :: after).mapM f = .error e := by
  induction before with
  | nil =>
    rw [List.nil_append, List.mapM_cons, failed]
    rfl
  | cons y before ih =>
    rw [List.forall_mem_cons] at passed
    obtain ⟨b, first⟩ := passed.1
    rw [List.cons_append, List.mapM_cons, first, ih passed.2]
    rfl

theorem exists_of_mapM_eq_error {f : α → Except ε β} {xs : List α} {e : ε}
    (h : xs.mapM f = .error e) : ∃ x ∈ attempted f xs, f x = .error e := by
  induction xs with
  | nil => cases h
  | cons x xs ih =>
    rw [List.mapM_cons, bind_eq_error_iff] at h
    rcases h with h | ⟨y, first, h⟩
    · exact ⟨x, List.mem_cons_self, h⟩
    · rw [bind_eq_error_iff] at h
      rcases h with h | ⟨_, -, h⟩
      · obtain ⟨x', member, failed⟩ := ih h
        refine ⟨x', ?_, failed⟩
        rw [attempted, first]
        exact List.mem_cons_of_mem _ member
      · cases h

end Reshape
