import Reshape.Path
import Reshape.Proofs.Except
import Reshape.Proofs.Fields
import Reshape.Proofs.Text.Split

/-!
The grammar of a step: which texts it has and what each of them says. `readStep_eq_ok_iff` shows
that the reader follows it.
-/

namespace Reshape

/-- The last of the pieces that give a value under a name gives this one. -/
def Arguments.LastValue (pieces : List (List Char)) (name value : List Char) : Prop :=
  ∃ earlier later, pieces = earlier ++ (name ++ '=' :: value) :: later ∧ '=' ∉ name ∧
    ∀ other, name ++ '=' :: other ∉ later

/-- What a list of written arguments says. -/
structure Arguments.Spelled (pieces : List (List Char)) (a : Arguments) : Prop where
  haveNames : ∀ piece ∈ pieces, piece.head? ≠ some '='
  positional : a.positional = (pieces.filter ('=' ∉ ·)).map String.ofList
  ascending : Fields.Ascending a.named
  named : ∀ name value, (name, value) ∈ a.named ↔ LastValue pieces name.toList value.toList

namespace Path

/-- What the text between brackets says. -/
inductive Spelled : List Char → Form → Prop
  | plain {name : List Char} : name ≠ [] → ':' ∉ name → Spelled name (.call (String.ofList name) {})
  | withArguments {name : List Char} {pieces : List (List Char)} {a : Arguments} :
    name ≠ [] → ':' ∉ name → pieces ≠ [] → (∀ piece ∈ pieces, ',' ∉ piece) → a.Spelled pieces →
    Spelled (name ++ ':' :: [','].intercalate pieces) (.call (String.ofList name) a)

/-- A key is any text without a dot that does not open a bracket; a lookup stands in brackets. -/
inductive Step.WellFormed : Step → Prop
  | key {text : List Char} : text ≠ [] → '.' ∉ text → text.head? ≠ some '<' →
    WellFormed ⟨String.ofList text, .key (String.ofList text)⟩
  | call {body : List Char} {form : Form} : '<' ∉ body → '>' ∉ body → Spelled body form →
    WellFormed ⟨String.ofList ('<' :: body ++ ['>']), form⟩

/-! ### Arguments -/

theorem addArgument_positional (a : Arguments) {text : List Char} (plain : '=' ∉ text) :
    addArgument a text = .ok { a with positional := a.positional ++ [String.ofList text] } := by
  rw [addArgument, Text.cut_of_not_mem plain]
  cases text <;> rfl

theorem addArgument_named (a : Arguments) {name : List Char} (nonempty : name ≠ [])
    (clean : '=' ∉ name) (value : List Char) :
    addArgument a (name ++ '=' :: value) =
      .ok (a.withNamed (String.ofList name) (String.ofList value)) := by
  rw [addArgument, Text.cut_append clean]
  cases name with
  | nil => exact absurd rfl nonempty
  | cons c name => rfl

theorem argument_cases (text : List Char) :
    '=' ∉ text ∨ ∃ name value, text = name ++ '=' :: value ∧ '=' ∉ name := by
  by_cases member : '=' ∈ text
  · obtain ⟨name, value, same, clean⟩ := List.eq_append_cons_of_mem member
    exact .inr ⟨name, value, same, clean⟩
  · exact .inl member

theorem addArgument_ok {a a' : Arguments} {text : List Char} (h : addArgument a text = .ok a') :
    text.head? ≠ some '=' := by
  intro head
  obtain ⟨rest, rfl⟩ : ∃ rest, text = '=' :: rest := by
    cases text with
    | nil => simp at head
    | cons c rest => exact ⟨rest, by simp_all⟩
  simp [addArgument, Text.cut] at h

theorem exists_addArgument (a : Arguments) {text : List Char} (named : text.head? ≠ some '=') :
    ∃ a', addArgument a text = .ok a' := by
  rcases argument_cases text with plain | ⟨name, value, rfl, clean⟩
  · exact ⟨_, addArgument_positional a plain⟩
  · have nonempty : name ≠ [] := by
      rintro rfl
      simp at named
    exact ⟨_, addArgument_named a nonempty clean value⟩

theorem lastValue_nil (name value : List Char) : ¬ Arguments.LastValue [] name value := by
  rintro ⟨earlier, later, same, -⟩
  simp at same

theorem concat_eq_append_cons_iff {α : Type} {xs earlier later : List α} {x y : α} :
    xs ++ [x] = earlier ++ y :: later ↔
      xs = earlier ∧ x = y ∧ later = [] ∨ ∃ rest, later = rest ++ [x] ∧ xs = earlier ++ y :: rest := by
  rcases List.eq_nil_or_concat' later with rfl | ⟨rest, final, rfl⟩
  · simp
  · rw [← List.cons_append, ← List.append_assoc]
    constructor
    · intro same
      obtain ⟨rfl, ends⟩ := List.append_inj' same rfl
      cases ends
      exact .inr ⟨rest, rfl, rfl⟩
    · rintro (⟨-, -, absurd⟩ | ⟨rest', same, rfl⟩)
      · simp at absurd
      · obtain ⟨rfl, ends⟩ := List.append_inj' same rfl
        cases ends
        rfl

theorem lastValue_concat_positional {pieces : List (List Char)} {text : List Char}
    (plain : '=' ∉ text) (name value : List Char) :
    Arguments.LastValue (pieces ++ [text]) name value ↔ Arguments.LastValue pieces name value := by
  simp only [Arguments.LastValue, concat_eq_append_cons_iff]
  constructor
  · rintro ⟨earlier, later, ⟨-, rfl, -⟩ | ⟨rest, rfl, rfl⟩, clean, last⟩
    · simp at plain
    · exact ⟨earlier, rest, rfl, clean, fun other member => last other (by simp [member])⟩
  · rintro ⟨earlier, later, rfl, clean, last⟩
    refine ⟨earlier, later ++ [text], .inr ⟨later, rfl, rfl⟩, clean, ?_⟩
    intro other member
    rcases List.mem_append.mp member with member | member
    · exact last other member
    · rw [← List.mem_singleton.mp member] at plain
      simp at plain

theorem lastValue_concat_named {pieces : List (List Char)} {name value : List Char}
    (clean : '=' ∉ name) (name' value' : List Char) :
    Arguments.LastValue (pieces ++ [name ++ '=' :: value]) name' value' ↔
      name' = name ∧ value' = value ∨ name' ≠ name ∧ Arguments.LastValue pieces name' value' := by
  simp only [Arguments.LastValue, concat_eq_append_cons_iff]
  constructor
  · rintro ⟨earlier, later, ⟨-, same, -⟩ | ⟨rest, rfl, rfl⟩, clean', last⟩
    · obtain ⟨rfl, rfl⟩ := (Text.append_cons_inj clean clean').mp same
      exact .inl ⟨rfl, rfl⟩
    · refine .inr ⟨?_, earlier, rest, rfl, clean', fun other member => last other (by simp [member])⟩
      rintro rfl
      exact last value (by simp)
  · rintro (⟨rfl, rfl⟩ | ⟨different, earlier, later, rfl, clean', last⟩)
    · exact ⟨pieces, [], .inl ⟨rfl, rfl, rfl⟩, clean, by simp⟩
    · refine ⟨earlier, later ++ [name ++ '=' :: value], .inr ⟨later, rfl, rfl⟩, clean', ?_⟩
      intro other member
      rcases List.mem_append.mp member with member | member
      · exact last other member
      · exact different
          ((Text.append_cons_inj clean' clean).mp (List.mem_singleton.mp member)).1

theorem spelled_concat {pieces : List (List Char)} {a a' : Arguments} {text : List Char}
    (spelled : a.Spelled pieces) (h : addArgument a text = .ok a') :
    a'.Spelled (pieces ++ [text]) := by
  have haveNames : ∀ piece ∈ pieces ++ [text], piece.head? ≠ some '=' := by
    intro piece member
    rcases List.mem_append.mp member with member | member
    · exact spelled.haveNames piece member
    · rw [List.mem_singleton.mp member]
      exact addArgument_ok h
  rcases argument_cases text with plain | ⟨name, value, rfl, clean⟩
  · rw [addArgument_positional a plain] at h
    obtain rfl := Except.ok.inj h
    refine ⟨haveNames, by simp [plain, spelled.positional], spelled.ascending, ?_⟩
    intro name value
    rw [lastValue_concat_positional plain]
    exact spelled.named name value
  · have nonempty : name ≠ [] := by
      rintro rfl
      exact addArgument_ok h rfl
    rw [addArgument_named a nonempty clean] at h
    obtain rfl := Except.ok.inj h
    refine ⟨haveNames, by simp [Arguments.withNamed, spelled.positional],
      Fields.ascending_insertSorted _ _ spelled.ascending, ?_⟩
    intro name' value'
    rw [lastValue_concat_named clean, ← spelled.named]
    simp only [Arguments.withNamed, Fields.mem_insertSorted spelled.ascending, Prod.mk.injEq]
    simp only [← String.toList_inj, String.toList_ofList, ne_eq]

theorem foldlM_spelled {pieces later : List (List Char)} {a a' : Arguments}
    (spelled : a.Spelled pieces) (h : later.foldlM addArgument a = .ok a') :
    a'.Spelled (pieces ++ later) := by
  induction later generalizing pieces a with
  | nil =>
    rw [List.foldlM_nil, pure_eq_ok_iff] at h
    subst h
    rwa [List.append_nil]
  | cons text later ih =>
    rw [List.foldlM_cons, bind_eq_ok_iff] at h
    obtain ⟨next, first, h⟩ := h
    rw [← List.singleton_append, ← List.append_assoc]
    exact ih (spelled_concat spelled first) h

theorem exists_foldlM {pieces : List (List Char)}
    (haveNames : ∀ piece ∈ pieces, piece.head? ≠ some '=') (a : Arguments) :
    ∃ a', pieces.foldlM addArgument a = .ok a' := by
  induction pieces generalizing a with
  | nil => exact ⟨a, rfl⟩
  | cons text pieces ih =>
    obtain ⟨next, first⟩ := exists_addArgument a (haveNames text List.mem_cons_self)
    obtain ⟨a', rest⟩ := ih (fun piece member => haveNames piece (List.mem_cons_of_mem _ member)) next
    exact ⟨a', by rw [List.foldlM_cons, bind_eq_ok_iff]; exact ⟨next, first, rest⟩⟩

theorem spelled_nil : ({} : Arguments).Spelled [] where
  haveNames := by simp
  positional := rfl
  ascending := List.Pairwise.nil
  named name value := by simp [lastValue_nil]

theorem spelled_unique {pieces : List (List Char)} {a b : Arguments} (first : a.Spelled pieces)
    (second : b.Spelled pieces) : a = b := by
  have named : a.named = b.named := first.ascending.ext second.ascending fun field => by
    rw [first.named, second.named]
  have positional : a.positional = b.positional := first.positional.trans second.positional.symm
  cases a
  cases b
  simp_all

theorem foldlM_addArgument_eq_ok_iff {pieces : List (List Char)} {a : Arguments} :
    pieces.foldlM addArgument {} = .ok a ↔ a.Spelled pieces := by
  constructor
  · intro h
    exact foldlM_spelled spelled_nil h
  · intro spelled
    obtain ⟨a', h⟩ := exists_foldlM spelled.haveNames {}
    rw [h, spelled_unique (foldlM_spelled spelled_nil h) spelled]

/-! ### Steps -/

theorem readCall_plain {name : List Char} (nonempty : name ≠ []) (plain : ':' ∉ name) :
    readCall name = .ok (.call (String.ofList name) {}) := by
  rw [readCall, Text.cut_of_not_mem plain]
  cases name with
  | nil => exact absurd rfl nonempty
  | cons c name => rfl

theorem readCall_withArguments {name : List Char} (nonempty : name ≠ []) (plain : ':' ∉ name)
    (list : List Char) :
    readCall (name ++ ':' :: list) =
      Form.call (String.ofList name) <$> (Text.split ',' list).foldlM addArgument {} := by
  rw [readCall, Text.cut_append plain]
  cases name with
  | nil => exact absurd rfl nonempty
  | cons c name =>
    cases h : (Text.split ',' list).foldlM addArgument {} <;>
      simp [h, bind, Except.bind, pure, Except.pure, Functor.map, Except.map]

theorem readCall_eq_ok_iff {body : List Char} {form : Form} :
    readCall body = .ok form ↔ Spelled body form := by
  constructor
  · intro h
    have nonempty : ∀ {name rest}, Text.cut ':' body = (name, rest) → name ≠ [] := by
      rintro name rest cuts rfl
      rw [readCall, cuts] at h
      cases h
    by_cases member : ':' ∈ body
    · obtain ⟨name, list, rfl, plain⟩ := List.eq_append_cons_of_mem member
      have nonempty := nonempty (Text.cut_append plain list)
      rw [readCall_withArguments nonempty plain, map_eq_ok_iff] at h
      obtain ⟨a, arguments, rfl⟩ := h
      obtain ⟨some, clean, same⟩ := Text.split_eq_iff.mp (rfl : Text.split ',' list = _)
      rw [same]
      exact .withArguments nonempty plain some clean (foldlM_addArgument_eq_ok_iff.mp arguments)
    · have nonempty := nonempty (Text.cut_of_not_mem member)
      rw [readCall_plain nonempty member] at h
      cases h
      exact .plain nonempty member
  · intro spelled
    cases spelled with
    | plain nonempty plain => exact readCall_plain nonempty plain
    | withArguments nonempty plain some clean arguments =>
      rw [readCall_withArguments nonempty plain, Text.split_eq_iff.mpr ⟨some, clean, rfl⟩,
        foldlM_addArgument_eq_ok_iff.mpr arguments]
      rfl

theorem takeBody_eq_ok_iff {cs body rest : List Char} :
    takeBody cs = .ok (body, rest) ↔ '<' ∉ body ∧ '>' ∉ body ∧ cs = body ++ '>' :: rest := by
  induction cs generalizing body with
  | nil => simp [takeBody]
  | cons c cs ih =>
    cases body with
    | nil =>
      rw [takeBody]
      split_ifs with closing opening
      · simp [closing]
      · simp [closing]
      · cases takeBody cs <;> simp [Except.map, closing]
    | cons b body =>
      have step : takeBody (c :: cs) = .ok (b :: body, rest) ↔
          c ≠ '>' ∧ c ≠ '<' ∧ c = b ∧ takeBody cs = .ok (body, rest) := by
        rw [takeBody]
        split_ifs with closing opening
        · simp [closing]
        · simp [opening]
        · cases takeBody cs <;> simp [Except.map, closing, opening, Prod.ext_iff, and_assoc]
      rw [step, ih]
      simp only [List.mem_cons, not_or, List.cons_append, List.cons.injEq]
      constructor
      · rintro ⟨closing, opening, rfl, clean, clean', same⟩
        exact ⟨⟨Ne.symm opening, clean⟩, ⟨Ne.symm closing, clean'⟩, rfl, same⟩
      · rintro ⟨⟨opening, clean⟩, ⟨closing, clean'⟩, rfl, same⟩
        exact ⟨Ne.symm closing, Ne.symm opening, rfl, clean, clean', same⟩

theorem readStep_key {text : List Char} (nonempty : text ≠ []) (front : text.head? ≠ some '<') :
    readStep text = .ok ⟨String.ofList text, .key (String.ofList text)⟩ := by
  cases text with
  | nil => exact absurd rfl nonempty
  | cons c cs =>
    have other : c ≠ '<' := fun same => front (by rw [same]; rfl)
    simp [readStep, other]

theorem readStep_call {body : List Char} {form : Form} (opening : '<' ∉ body) (closing : '>' ∉ body)
    (called : readCall body = .ok form) :
    readStep ('<' :: body ++ ['>']) = .ok ⟨String.ofList ('<' :: body ++ ['>']), form⟩ := by
  have taken : takeBody (body ++ ['>']) = .ok (body, []) :=
    takeBody_eq_ok_iff.mpr ⟨opening, closing, rfl⟩
  rw [List.cons_append, readStep]
  simp [taken, called, bind, Except.bind, pure, Except.pure]

/-- A text that is cut at its dots, if it is a key, is read as the grammar says. -/
theorem readStep_eq_ok_iff {text : List Char} (cut : text.head? ≠ some '<' → '.' ∉ text)
    {step : Step} : readStep text = .ok step ↔ step.raw = String.ofList text ∧ step.WellFormed := by
  constructor
  · intro h
    by_cases front : text.head? = some '<'
    · obtain ⟨cs, rfl⟩ := List.head?_eq_some_iff.mp front
      simp only [readStep, bind_eq_ok_iff] at h
      obtain ⟨⟨body, rest⟩, taken, form, called, h⟩ := h
      obtain ⟨opening, closing, rfl⟩ := takeBody_eq_ok_iff.mp taken
      cases rest with
      | nil =>
        rw [pure_eq_ok_iff] at h
        subst h
        exact ⟨rfl, .call opening closing (readCall_eq_ok_iff.mp called)⟩
      | cons c rest => cases h
    · have nonempty : text ≠ [] := by
        rintro rfl
        cases h
      rw [readStep_key nonempty front] at h
      obtain rfl := Except.ok.inj h
      exact ⟨rfl, .key nonempty (cut front) front⟩
  · rintro ⟨same, wellFormed⟩
    cases wellFormed with
    | key nonempty clean front =>
      obtain rfl := String.ofList_injective same
      exact readStep_key nonempty front
    | call opening closing spelled =>
      obtain rfl := String.ofList_injective same
      exact readStep_call opening closing (readCall_eq_ok_iff.mpr spelled)

theorem wellFormed_bracketed_iff {body : List Char} {form : Form} :
    Step.WellFormed ⟨String.ofList ('<' :: body ++ ['>']), form⟩ ↔
      '<' ∉ body ∧ '>' ∉ body ∧ Spelled body form := by
  constructor
  · generalize raw : String.ofList ('<' :: body ++ ['>']) = text
    intro wellFormed
    cases wellFormed with
    | key _ _ front =>
      rw [← String.ofList_injective raw] at front
      exact absurd rfl front
    | call opening closing spelled =>
      have same := List.append_cancel_right (String.ofList_injective raw)
      obtain rfl := (List.cons.inj same).2
      exact ⟨opening, closing, spelled⟩
  · rintro ⟨opening, closing, spelled⟩
    exact .call opening closing spelled

theorem spelled_withArguments_iff {name list : List Char} {form : Form} (nonempty : name ≠ [])
    (plain : ':' ∉ name) :
    Spelled (name ++ ':' :: list) form ↔
      ∃ a : Arguments, a.Spelled (Text.split ',' list) ∧ .call (String.ofList name) a = form := by
  rw [← readCall_eq_ok_iff, readCall_withArguments nonempty plain, map_eq_ok_iff]
  simp only [foldlM_addArgument_eq_ok_iff]

end Path

end Reshape
