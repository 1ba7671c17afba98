import Mathlib.Data.List.TakeWhile
import Reshape.Text.Blank

/-!
Trimming takes all blanks off the two ends of a text, and nothing else.
-/

namespace Reshape.Text

/-- A text is its trimmed text between blanks. -/
theorem exists_trim (s : String) : ∃ before after : List Char,
    s.toList = before ++ (trim s).toList ++ after ∧ ∀ c ∈ before ++ after, isBlank c = true := by
  have front := List.takeWhile_append_dropWhile (p := isBlank) (l := s.toList)
  have back := List.takeWhile_append_dropWhile (p := isBlank)
    (l := (s.toList.dropWhile isBlank).reverse)
  refine ⟨s.toList.takeWhile isBlank,
    ((s.toList.dropWhile isBlank).reverse.takeWhile isBlank).reverse, ?_, ?_⟩
  · rw [trim, String.toList_ofList, List.append_assoc, ← List.reverse_append, back,
      List.reverse_reverse, front]
  · intro c member
    rcases List.mem_append.mp member with member | member
    · exact List.mem_takeWhile_imp member
    · exact List.mem_takeWhile_imp (List.mem_reverse.mp member)

theorem trim_padded {before text after : List Char}
    (blank : ∀ c ∈ before ++ after, isBlank c = true)
    (unblank : ∀ c ∈ text, isBlank c = false) :
    trim (String.ofList (before ++ text ++ after)) = String.ofList text := by
  have dropped : ∀ {pad rest : List Char}, (∀ c ∈ pad, isBlank c = true) →
      (pad ++ rest).dropWhile isBlank = rest.dropWhile isBlank := List.dropWhile_append_of_pos
  have kept : ∀ {cs : List Char} (rest : List Char), cs ≠ [] → (∀ c ∈ cs, isBlank c = false) →
      (cs ++ rest).dropWhile isBlank = cs ++ rest := by
    intro cs rest nonempty unblank
    cases cs with
    | nil => exact absurd rfl nonempty
    | cons c cs => simp [unblank c]
  rw [List.forall_mem_append] at blank
  rw [trim, String.toList_ofList, List.append_assoc, dropped blank.1]
  by_cases empty : text = []
  · subst empty
    have nothing : after.dropWhile isBlank = [] := by simpa using @dropped after [] blank.2
    rw [List.nil_append, nothing]
    rfl
  · have back : ∀ c ∈ text.reverse, isBlank c = false := by simpa using unblank
    rw [kept after empty unblank, List.reverse_append, dropped (by simpa using blank.2),
      ← List.append_nil text.reverse, kept [] (by simpa using empty) back, List.append_nil,
      List.reverse_reverse]

theorem trim_of_unblank {s : String} (unblank : ∀ c ∈ s.toList, isBlank c = false) :
    trim s = s := by
  have alone := @trim_padded [] s.toList [] (by simp) unblank
  rwa [List.nil_append, List.append_nil, String.ofList_toList] at alone

end Reshape.Text
