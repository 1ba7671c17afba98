import Mathlib.Data.List.Basic
import Reshape.Text.Split

/-!
Cutting a text at a separator: what the pieces are, and that joining them gives the text back.
-/

namespace Reshape.Text

variable {separator : Char}

theorem cut_append {before : List Char} (clean : separator ∉ before) (after : List Char) :
    cut separator (before ++ separator :: after) = (before, some after) := by
  induction before with
  | nil => simp [cut]
  | cons c cs ih =>
    simp only [List.mem_cons, not_or] at clean
    rw [List.cons_append, cut, if_neg (Ne.symm clean.1), ih clean.2]

theorem cut_of_not_mem {cs : List Char} (clean : separator ∉ cs) : cut separator cs = (cs, none) := by
  induction cs with
  | nil => rfl
  | cons c cs ih =>
    simp only [List.mem_cons, not_or] at clean
    rw [cut, if_neg (Ne.symm clean.1), ih clean.2]

theorem append_cons_inj {before before' after after' : List Char} (clean : separator ∉ before)
    (clean' : separator ∉ before') :
    before ++ separator :: after = before' ++ separator :: after' ↔
      before = before' ∧ after = after' := by
  constructor
  · intro same
    have cuts := congrArg (cut separator) same
    rw [cut_append clean, cut_append clean'] at cuts
    simpa using cuts
  · rintro ⟨rfl, rfl⟩
    rfl

/-! ### Pieces -/

theorem pushFirst_eq_modifyHead (c : Char) {pieces : List (List Char)} (some : pieces ≠ []) :
    pushFirst c pieces = pieces.modifyHead (c :: ·) := by
  cases pieces with
  | nil => exact absurd rfl some
  | cons piece rest => rfl

theorem split_eq_splitOn (cs : List Char) : split separator cs = cs.splitOn separator := by
  induction cs with
  | nil => rfl
  | cons c cs ih =>
    rw [split, List.splitOn_cons_eq_if_modifyHead, ih]
    simp only [beq_iff_eq, pushFirst_eq_modifyHead c (List.splitOn_ne_nil separator cs)]

theorem not_mem_of_mem_split {cs piece : List Char} (member : piece ∈ split separator cs) :
    separator ∉ piece := by
  induction cs generalizing piece with
  | nil => simp_all [split]
  | cons c cs ih =>
    rw [split] at member
    split at member
    · rcases List.mem_cons.mp member with rfl | member
      · exact List.not_mem_nil
      · exact ih member
    · rename_i other
      cases pieces : split separator cs with
      | nil =>
        rw [split_eq_splitOn] at pieces
        exact absurd pieces (List.splitOn_ne_nil _ _)
      | cons first rest =>
        rw [pieces, pushFirst] at member
        rcases List.mem_cons.mp member with rfl | member
        · simp only [List.mem_cons, not_or]
          exact ⟨Ne.symm other, ih (by rw [pieces]; exact List.mem_cons_self)⟩
        · exact ih (by rw [pieces]; exact List.mem_cons_of_mem _ member)

/-- The pieces are the only texts without the separator that it joins into the whole. -/
theorem split_eq_iff {cs : List Char} {pieces : List (List Char)} :
    split separator cs = pieces ↔
      pieces ≠ [] ∧ (∀ piece ∈ pieces, separator ∉ piece) ∧ cs = [separator].intercalate pieces := by
  constructor
  · rintro rfl
    refine ⟨?_, fun piece => not_mem_of_mem_split, ?_⟩
    · rw [split_eq_splitOn]
      exact List.splitOn_ne_nil _ _
    · rw [split_eq_splitOn, List.intercalate_splitOn]
  · rintro ⟨nonempty, clean, rfl⟩
    rw [split_eq_splitOn, List.splitOn_intercalate _ clean nonempty]

/-- Joining adds no characters but the separator. -/
theorem mem_intercalate_iff {c : Char} (other : c ≠ separator) {pieces : List (List Char)} :
    c ∈ [separator].intercalate pieces ↔ ∃ piece ∈ pieces, c ∈ piece := by
  match pieces with
  | [] => simp
  | [piece] => simp
  | piece :: next :: rest =>
    rw [List.intercalate_cons_cons, List.mem_append, mem_intercalate_iff other]
    simp [other]

end Reshape.Text
