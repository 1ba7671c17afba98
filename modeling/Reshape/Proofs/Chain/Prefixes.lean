import Reshape.Chain
import Reshape.Proofs.Path.Reading

/-!
Prefixes of chains: joined texts of their first steps. A prefix of a chain that comes from a path
has the bounds of its steps, so two chains with a prefix in common have the same steps up to it.
-/

namespace Reshape

/-! ### Extending a prefix -/

theorem intercalate_ne_empty {texts : List String} (nonempty : texts ≠ [])
    (written : ∀ text ∈ texts, text ≠ "") : ".".intercalate texts ≠ "" := by
  match texts with
  | [] => exact absurd rfl nonempty
  | [text] =>
    rw [String.intercalate_singleton]
    exact written text List.mem_cons_self
  | text :: next :: rest =>
    rw [String.intercalate_cons_cons, ← String.toList_inj.ne]
    simp

theorem extendPrefix_intercalate {texts : List String} (written : ∀ text ∈ texts, text ≠ "")
    (raw : String) :
    extendPrefix (".".intercalate texts) raw = ".".intercalate (texts ++ [raw]) := by
  by_cases nonempty : texts = []
  · subst nonempty
    simp [extendPrefix, String.intercalate_nil, String.intercalate_singleton]
  · rw [extendPrefix, if_neg (by simpa using intercalate_ne_empty nonempty written),
      String.intercalate_append_of_ne_nil nonempty (List.cons_ne_nil _ _),
      String.intercalate_singleton]

namespace Chain

def texts (c : Chain) : List String := c.steps.map Step.raw

/-- The text of the first `n` steps. -/
def upTo (c : Chain) (n : Nat) : String := ".".intercalate (c.texts.take n)

/-- The steps have the texts of a path's steps. -/
def Spells (c : Chain) (path : List Path.Step) : Prop :=
  path ≠ [] ∧ (∀ step ∈ path, step.WellFormed) ∧ c.texts = path.map Path.Step.raw

def WellSpelled (c : Chain) : Prop := ∃ path, c.Spells path

theorem length_texts (c : Chain) : c.texts.length = c.steps.length := List.length_map _

theorem Spells.written {c : Chain} {path : List Path.Step} (spells : c.Spells path) :
    ∀ text ∈ c.texts, text ≠ "" := by
  obtain ⟨-, wellFormed, same⟩ := spells
  intro text member
  rw [same] at member
  obtain ⟨step, found, rfl⟩ := List.mem_map.mp member
  exact Path.raw_ne_empty (wellFormed step found)

/-! ### All prefixes -/

theorem prefixesFrom_eq (start : List String) (steps : List Step)
    (written : ∀ text ∈ start ++ steps.map Step.raw, text ≠ "") :
    prefixesFrom (".".intercalate start) steps =
      (List.range steps.length).map fun i =>
        ".".intercalate (start ++ (steps.map Step.raw).take (i + 1)) := by
  induction steps generalizing start with
  | nil => rfl
  | cons step rest ih =>
    have begun := extendPrefix_intercalate
      (fun text member => written text (List.mem_append_left _ member)) step.raw
    have later := ih (start ++ [step.raw]) (by simpa using written)
    rw [prefixesFrom, begun, later, List.length_cons, List.range_succ_eq_map, List.map_cons,
      List.map_map]
    simp [Function.comp_def]

theorem prefixes_eq {c : Chain} (wellSpelled : c.WellSpelled) :
    c.prefixes = (List.range c.steps.length).map fun i => c.upTo (i + 1) := by
  obtain ⟨path, spells⟩ := wellSpelled
  have all := prefixesFrom_eq [] c.steps spells.written
  rwa [String.intercalate_nil] at all

theorem mem_prefixes {c : Chain} (wellSpelled : c.WellSpelled) {path : String} :
    path ∈ c.prefixes ↔ ∃ i < c.steps.length, path = c.upTo (i + 1) := by
  rw [prefixes_eq wellSpelled]
  simp [eq_comm]

theorem upTo_zero (c : Chain) : c.upTo 0 = "" := String.intercalate_nil

theorem upTo_length {c : Chain} {before rest : List Step} (split : c.steps = before ++ rest) :
    c.upTo before.length = ".".intercalate (before.map Step.raw) := by
  rw [upTo, texts, split, List.map_append, List.take_left' (List.length_map _)]

theorem extendPrefix_upTo {c : Chain} (wellSpelled : c.WellSpelled) {before rest : List Step}
    {step : Step} (split : c.steps = before ++ step :: rest) :
    extendPrefix (c.upTo before.length) step.raw = c.upTo (before.length + 1) := by
  obtain ⟨path, spells⟩ := wellSpelled
  have next : c.steps = (before ++ [step]) ++ rest := by simpa using split
  have longer := upTo_length next
  rw [List.length_append, List.length_singleton, List.map_append] at longer
  rw [longer, upTo_length split, extendPrefix_intercalate]
  · rfl
  · intro text member
    refine spells.written text ?_
    rw [texts, split, List.map_append]
    exact List.mem_append_left _ member

theorem exists_first {c : Chain} (wellSpelled : c.WellSpelled) :
    ∃ step rest, c.steps = step :: rest ∧ extendPrefix "" step.raw = c.upTo 1 := by
  cases split : c.steps with
  | nil =>
    obtain ⟨path, nonempty, -, texts⟩ := wellSpelled
    rw [Chain.texts, split, List.map_nil, eq_comm, List.map_eq_nil_iff] at texts
    exact absurd texts nonempty
  | cons step rest =>
    refine ⟨step, rest, rfl, ?_⟩
    rw [← upTo_zero c]
    have front : c.steps = [] ++ step :: rest := split
    exact extendPrefix_upTo wellSpelled front

/-- Chains with a prefix in common spell the same steps up to it. -/
theorem Spells.take_inj {c d : Chain} {path path' : List Path.Step} (first : c.Spells path)
    (second : d.Spells path') {i j : Nat} (same : c.upTo (i + 1) = d.upTo (j + 1)) :
    path.take (i + 1) = path'.take (j + 1) := by
  obtain ⟨nonempty, wellFormed, texts⟩ := first
  obtain ⟨nonempty', wellFormed', texts'⟩ := second
  rw [upTo, upTo, texts, texts', ← List.map_take, ← List.map_take] at same
  exact Path.join_injective (by simpa using nonempty) (by simpa using nonempty')
    (fun step member => wellFormed step (List.mem_of_mem_take member))
    (fun step member => wellFormed' step (List.mem_of_mem_take member)) same

theorem take_texts_inj {c d : Chain} (first : c.WellSpelled) (second : d.WellSpelled) {i j : Nat}
    (same : c.upTo (i + 1) = d.upTo (j + 1)) : c.texts.take (i + 1) = d.texts.take (j + 1) := by
  obtain ⟨path, spells⟩ := first
  obtain ⟨path', spells'⟩ := second
  rw [spells.2.2, spells'.2.2, ← List.map_take, ← List.map_take, spells.take_inj spells' same]

/-- A common prefix has the same length in both chains, and so have all that are shorter. -/
theorem upTo_eq_iff {c d : Chain} (first : c.WellSpelled) (second : d.WellSpelled) {i j : Nat}
    (bound : i < c.steps.length) (bound' : j < d.steps.length)
    (same : c.upTo (i + 1) = d.upTo (j + 1)) : i = j ∧ ∀ k ≤ i, c.upTo (k + 1) = d.upTo (k + 1) := by
  have texts := take_texts_inj first second same
  have lengths := congrArg List.length texts
  rw [List.length_take, List.length_take, length_texts, length_texts] at lengths
  obtain rfl : i = j := by omega
  refine ⟨rfl, fun k shorter => ?_⟩
  have shortened := congrArg (List.take (k + 1)) texts
  rw [List.take_take, List.take_take, Nat.min_eq_left (by omega)] at shortened
  rw [upTo, upTo, shortened]

theorem upTo_one_eq {c d : Chain} (first : c.WellSpelled) (second : d.WellSpelled) {i j : Nat}
    (same : c.upTo (i + 1) = d.upTo (j + 1)) : c.upTo 1 = d.upTo 1 := by
  have texts := congrArg (List.take 1) (take_texts_inj first second same)
  rw [List.take_take, List.take_take, Nat.min_eq_left (Nat.le_add_left 1 i),
    Nat.min_eq_left (Nat.le_add_left 1 j)] at texts
  rw [upTo, upTo, texts]

theorem upTo_one_mem {c : Chain} (wellSpelled : c.WellSpelled) : c.upTo 1 ∈ c.prefixes := by
  obtain ⟨step, rest, split, -⟩ := exists_first wellSpelled
  exact (mem_prefixes wellSpelled).mpr ⟨0, by simp [split], rfl⟩

end Chain

end Reshape
