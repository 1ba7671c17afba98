import Reshape.Proofs.Path.Grammar

/-!
Reading a path and joining its steps are inverse to each other on well-formed steps. `read_spec`
says which texts are paths, what their steps are and how the others are refused; `join_injective`
that a joined text keeps the bounds of its steps.
-/

namespace Reshape.Text

theorem foldr_pushFirst_cons (text piece : List Char) (rest : List (List Char)) :
    text.foldr pushFirst (piece :: rest) = (text ++ piece) :: rest := by
  induction text with
  | nil => rfl
  | cons c text ih => rw [List.foldr_cons, ih, pushFirst, List.cons_append]

theorem pushFirst_ne_nil (c : Char) (pieces : List (List Char)) : pushFirst c pieces ≠ [] := by
  cases pieces <;> simp [pushFirst]

theorem intercalate_pushFirst (separator c : Char) (pieces : List (List Char)) :
    [separator].intercalate (pushFirst c pieces) = c :: [separator].intercalate pieces := by
  match pieces with
  | [] => rfl
  | [piece] => rfl
  | piece :: next :: rest =>
    rw [pushFirst, List.intercalate_cons_cons, List.intercalate_cons_cons, List.cons_append,
      List.cons_append]

end Reshape.Text

namespace Reshape.Path

open Text (pushFirst)

/-! ### Division into steps -/

/-- A character goes to the first piece, except a dot that ends a step. -/
theorem divide_cons (place : Place) (c : Char) (cs : List Char) :
    (∃ next, divide place (c :: cs) = pushFirst c (divide next cs)) ∨
      c = '.' ∧ divide place (c :: cs) = [] :: divide .front cs := by
  by_cases free : place = .inside
  · subst free
    rw [divide_inside_cons]
    split
    · exact .inl ⟨_, rfl⟩
    · exact .inl ⟨_, rfl⟩
  · by_cases dot : c = '.'
    · subst dot
      exact .inr ⟨rfl, divide_dot free cs⟩
    · by_cases noLookup : c = '<' → place ≠ .front
      · exact .inl ⟨_, divide_other free dot noLookup cs⟩
      · simp only [ne_eq, Classical.not_imp, not_not] at noLookup
        obtain ⟨rfl, rfl⟩ := noLookup
        exact .inl ⟨_, divide_opening cs⟩

theorem divide_ne_nil (place : Place) (cs : List Char) : divide place cs ≠ [] := by
  cases cs with
  | nil => simp [divide]
  | cons c cs =>
    rcases divide_cons place c cs with ⟨next, step⟩ | ⟨-, step⟩ <;> rw [step]
    · exact Text.pushFirst_ne_nil _ _
    · exact List.cons_ne_nil _ _

theorem intercalate_divide (place : Place) (cs : List Char) :
    ['.'].intercalate (divide place cs) = cs := by
  induction cs generalizing place with
  | nil => simp [divide]
  | cons c cs ih =>
    rcases divide_cons place c cs with ⟨next, step⟩ | ⟨rfl, step⟩ <;> rw [step]
    · rw [Text.intercalate_pushFirst, ih]
    · rw [List.intercalate_cons_of_ne_nil (divide_ne_nil _ _), ih]
      rfl

/-- The text of a step has no dot unless a bracket opens it. -/
def Cut (text : List Char) : Prop := text.head? ≠ some '<' → '.' ∉ text

def Place.Admits : Place → List Char → Prop
  | .front, text => Cut text
  | .inside, _ => True
  | .outside, text => '.' ∉ text

theorem divide_admits (place : Place) (cs : List Char) :
    ∃ first rest, divide place cs = first :: rest ∧ place.Admits first ∧ ∀ text ∈ rest, Cut text := by
  induction cs generalizing place with
  | nil =>
    refine ⟨[], [], by rw [divide], ?_, by simp⟩
    cases place <;> simp [Place.Admits, Cut]
  | cons c cs ih =>
    by_cases free : place = .inside
    · subst free
      rw [divide_inside_cons]
      split <;> obtain ⟨first, rest, pieces, -, cuts⟩ := ih _ <;>
        exact ⟨c :: first, rest, by rw [pieces, pushFirst], trivial, cuts⟩
    · by_cases dot : c = '.'
      · subst dot
        obtain ⟨first, rest, pieces, admits, cuts⟩ := ih .front
        refine ⟨[], first :: rest, by rw [divide_dot free, pieces], ?_, ?_⟩
        · cases place <;> simp [Place.Admits, Cut]
        · intro text member
          rcases List.mem_cons.mp member with rfl | member
          · exact admits
          · exact cuts text member
      · by_cases noLookup : c = '<' → place ≠ .front
        · obtain ⟨first, rest, pieces, admits, cuts⟩ := ih .outside
          have clean : '.' ∉ c :: first := by
            simp only [List.mem_cons, not_or]
            exact ⟨Ne.symm dot, admits⟩
          refine ⟨c :: first, rest, by rw [divide_other free dot noLookup, pieces, pushFirst], ?_, cuts⟩
          cases place with
          | front => exact fun _ => clean
          | inside => trivial
          | outside => exact clean
        · simp only [ne_eq, Classical.not_imp, not_not] at noLookup
          obtain ⟨rfl, rfl⟩ := noLookup
          obtain ⟨first, rest, pieces, -, cuts⟩ := ih .inside
          exact ⟨'<' :: first, rest, by rw [divide_opening, pieces, pushFirst],
            fun front => absurd rfl front, cuts⟩

theorem cut_of_mem_divide {cs text : List Char} (member : text ∈ divide .front cs) : Cut text := by
  obtain ⟨first, rest, pieces, admits, cuts⟩ := divide_admits .front cs
  rw [pieces] at member
  rcases List.mem_cons.mp member with rfl | member
  · exact admits
  · exact cuts text member

theorem divide_outside_append {text : List Char} (clean : '.' ∉ text) (cs : List Char) :
    divide .outside (text ++ cs) = text.foldr pushFirst (divide .outside cs) := by
  induction text with
  | nil => rfl
  | cons c text ih =>
    simp only [List.mem_cons, not_or] at clean
    rw [List.cons_append, divide_other (by simp) (Ne.symm clean.1) (by simp), ih clean.2]
    rfl

theorem divide_inside_append {body : List Char} (closing : '>' ∉ body) (cs : List Char) :
    divide .inside (body ++ '>' :: cs) = (body ++ ['>']).foldr pushFirst (divide .outside cs) := by
  induction body with
  | nil => simp [divide]
  | cons c body ih =>
    simp only [List.mem_cons, not_or] at closing
    rw [List.cons_append, divide_inside_cons, if_neg (Ne.symm closing.1), ih closing.2]
    rfl

theorem divide_raw_append {step : Step} (wellFormed : step.WellFormed) (cs : List Char) :
    divide .front (step.raw.toList ++ cs) = step.raw.toList.foldr pushFirst (divide .outside cs) := by
  cases wellFormed with
  | @key text nonempty clean front =>
    rw [String.toList_ofList]
    cases text with
    | nil => exact absurd rfl nonempty
    | cons c text =>
      have other : c ≠ '<' := fun same => front (by rw [same]; rfl)
      simp only [List.mem_cons, not_or] at clean
      rw [List.cons_append, divide_other (by simp) (Ne.symm clean.1) (by simp [other]),
        divide_outside_append clean.2]
      rfl
  | @call body form opening closing spelled =>
    rw [String.toList_ofList, List.cons_append, List.cons_append, List.append_assoc,
      List.singleton_append, divide_opening, divide_inside_append closing]
    rfl

/-- Well-formed steps are found again in their joined text. -/
theorem divide_intercalate {steps : List Step} (nonempty : steps ≠ [])
    (wellFormed : ∀ step ∈ steps, step.WellFormed) :
    divide .front (['.'].intercalate (steps.map fun step => step.raw.toList)) =
      steps.map fun step => step.raw.toList := by
  induction steps with
  | nil => exact absurd rfl nonempty
  | cons step rest ih =>
    have first := divide_raw_append (wellFormed step List.mem_cons_self)
    cases rest with
    | nil =>
      have alone := first []
      rw [List.append_nil] at alone
      simpa [divide, Text.foldr_pushFirst_cons] using alone
    | cons next rest =>
      have later := ih (List.cons_ne_nil _ _)
        (fun step member => wellFormed step (List.mem_cons_of_mem _ member))
      rw [List.map_cons, List.map_cons, List.intercalate_cons_cons, List.append_assoc, first,
        List.singleton_append, divide_dot (by simp), Text.foldr_pushFirst_cons, List.append_nil]
      exact congrArg _ later

/-! ### Paths -/

theorem toList_join (steps : List Step) :
    (join steps).toList = ['.'].intercalate (steps.map fun step => step.raw.toList) := by
  rw [join, String.toList_intercalate, List.map_map]
  rfl

theorem raw_ne_empty {step : Step} (wellFormed : step.WellFormed) : step.raw ≠ "" := by
  rw [← String.toList_inj.ne]
  cases wellFormed with
  | key nonempty => simpa using nonempty
  | call => simp

theorem join_ne_empty {steps : List Step} (nonempty : steps ≠ [])
    (wellFormed : ∀ step ∈ steps, step.WellFormed) : join steps ≠ "" := by
  intro empty
  have texts := divide_intercalate nonempty wellFormed
  rw [← toList_join, empty] at texts
  cases steps with
  | nil => exact nonempty rfl
  | cons step rest =>
    have raw : step.raw.toList = [] := (List.cons.inj texts).1.symm
    exact raw_ne_empty (wellFormed step List.mem_cons_self) (String.toList_eq_nil_iff.mp raw)

theorem readSteps_eq_ok_iff {cs : List Char} {steps : List Step} :
    readSteps cs = .ok steps ↔ steps ≠ [] ∧
      cs = ['.'].intercalate (steps.map fun step => step.raw.toList) ∧
      ∀ step ∈ steps, step.WellFormed := by
  constructor
  · intro h
    have cuts : ∀ text ∈ divide .front cs, Cut text := fun text => cut_of_mem_divide
    have each := (List.forall₂_and_left _ _).mpr ⟨cuts, mapM_eq_ok_iff.mp h⟩
    have texts : divide .front cs = steps.map fun step => step.raw.toList := by
      rw [← List.forall₂_eq_eq_eq, List.forall₂_map_right_iff]
      refine each.imp fun text step both => ?_
      rw [((readStep_eq_ok_iff both.1).mp both.2).1, String.toList_ofList]
    refine ⟨?_, by rw [← texts, intercalate_divide], ?_⟩
    · rintro rfl
      exact divide_ne_nil _ _ texts
    · intro step member
      obtain ⟨text, found, h⟩ := exists_of_mem_mapM h member
      exact ((readStep_eq_ok_iff (cuts text found)).mp h).2
  · rintro ⟨nonempty, rfl, wellFormed⟩
    rw [readSteps, mapM_eq_ok_iff, divide_intercalate nonempty wellFormed,
      List.forall₂_map_left_iff, List.forall₂_same]
    intro step member
    have divided := divide_intercalate nonempty wellFormed
    have piece : step.raw.toList ∈ steps.map fun step => step.raw.toList :=
      List.mem_map_of_mem member
    rw [← divided] at piece
    exact (readStep_eq_ok_iff (cut_of_mem_divide piece)).mpr
      ⟨String.ofList_toList.symm, wellFormed step member⟩

theorem read_eq_ok_iff {source : String} {steps : List Step} :
    read source = .ok steps ↔
      steps ≠ [] ∧ source = join steps ∧ ∀ step ∈ steps, step.WellFormed := by
  rw [read]
  split
  · rename_i empty
    refine ⟨fun h => (nomatch h), ?_⟩
    rintro ⟨nonempty, rfl, wellFormed⟩
    exact absurd (by simpa using empty) (join_ne_empty nonempty wellFormed)
  · rw [mapError_eq_ok_iff, readSteps_eq_ok_iff, ← toList_join, String.toList_inj]

/-- A joined text keeps the bounds of its steps and what they say. -/
theorem join_injective {steps steps' : List Step} (nonempty : steps ≠ []) (nonempty' : steps' ≠ [])
    (wellFormed : ∀ step ∈ steps, step.WellFormed) (wellFormed' : ∀ step ∈ steps', step.WellFormed)
    (same : join steps = join steps') : steps = steps' := by
  have first := read_eq_ok_iff.mpr ⟨nonempty, rfl, wellFormed⟩
  have second := read_eq_ok_iff.mpr ⟨nonempty', same, wellFormed'⟩
  exact Except.ok.inj (first.symm.trans second)

/-- A text is a path exactly if it joins well-formed steps, and these are what is read. All other
texts are refused, the empty one apart from those that name themselves. -/
theorem read_spec (source : String) :
    (∀ steps, read source = .ok steps ↔
      steps ≠ [] ∧ source = join steps ∧ ∀ step ∈ steps, step.WellFormed) ∧
    ((∃ steps, read source = .ok steps) ∨
      source = "" ∧ read source = .error .emptyExpression ∨
      source ≠ "" ∧ ∃ fault, read source = .error (.invalidExpression source fault)) := by
  refine ⟨fun steps => read_eq_ok_iff, ?_⟩
  by_cases empty : source = ""
  · subst empty
    exact .inr (.inl ⟨rfl, rfl⟩)
  · have unfolded : read source = (readSteps source.toList).mapError (.invalidExpression source) := by
      rw [read, if_neg (by simpa using empty)]
    cases h : readSteps source.toList with
    | ok steps => exact .inl ⟨steps, by rw [unfolded, h]; rfl⟩
    | error fault => exact .inr (.inr ⟨empty, fault, by rw [unfolded, h]; rfl⟩)

end Reshape.Path
