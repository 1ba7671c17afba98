import Reshape.Lookup.Key
import Reshape.Proofs.Fields
import Reshape.Proofs.Number.Literal
import Reshape.Proofs.Number.Word

/-!
Keys on sequences and on mappings. A key that is the text of a word is an index, from the front or,
if negative, from the end; the same key is compared as it is written with the keys of a mapping.
-/

namespace Reshape

/-! ### Texts of integers -/

/-- The text is the digits of an integer, leading zeros among them or not, after a sign or not. -/
def Word.Spells (cs : List Char) (n : Int) : Prop :=
  ∃ digits : List Digit, digits ≠ [] ∧
    ((cs = digits.map Digit.toChar ∨ cs = '+' :: digits.map Digit.toChar) ∧ n = Digit.toNat digits ∨
      cs = '-' :: digits.map Digit.toChar ∧ n = -(Digit.toNat digits : Int))

namespace Word

variable {cs : List Char} {s : String} {n : Int}

theorem spells_of_ofNumeral? {numeral : Numeral} (read : Numeral.read? cs = some numeral)
    (fits : ofNumeral? numeral = some n) : Spells cs n := by
  obtain ⟨m, integer, fits⟩ := Option.bind_eq_some_iff.mp fits
  obtain ⟨-, rfl⟩ := fit?_eq_some_iff.mp fits
  obtain ⟨plain, pointless, digits, rfl⟩ := Numeral.integer?_eq_some integer
  have text := (Numeral.isLiteral_of_read? read plain).text
  rw [Numeral.toChars_of_isPlain plain, pointless, Numeral.fractionChars, List.append_nil] at text
  refine ⟨numeral.whole, digits, ?_⟩
  cases negative : numeral.negative with
  | true => exact .inr ⟨by simpa [negative] using text, rfl⟩
  | false => exact .inl ⟨by simpa [negative] using text, rfl⟩

theorem read?_of_spells (spells : Spells s.toList n) (inRange : holds n = true) :
    read? s = some n := by
  obtain ⟨digits, nonempty, text⟩ := spells
  -- Both signs come to an integer literal of these digits.
  have literal : ∀ negative, (⟨negative, digits, none, none⟩ : Numeral).IsLiteral s.toList →
      n = (if negative then -(Digit.toNat digits : Int) else Digit.toNat digits) →
      read? s = some n := by
    rintro negative literal rfl
    have integer : (⟨negative, digits, none, none⟩ : Numeral).integer? =
        some (if negative then -(Digit.toNat digits : Int) else Digit.toNat digits) := by
      simp [Numeral.integer?, Numeral.isInteger, nonempty]
    rw [read?, literal.read?_eq, Option.bind_some, ofNumeral?, integer, Option.bind_some,
      fit?_of_holds inRange]
  rcases text with ⟨text, rfl⟩ | ⟨text, rfl⟩
  · refine literal false ⟨rfl, List.append_ne_nil_of_left_ne_nil nonempty _, ?_⟩ rfl
    simpa [Numeral.toChars] using text
  · refine literal true ⟨rfl, List.append_ne_nil_of_left_ne_nil nonempty _, ?_⟩ rfl
    simpa [Numeral.toChars] using text

theorem read?_eq_some_iff : read? s = some n ↔ holds n = true ∧ Spells s.toList n := by
  constructor
  · intro read
    obtain ⟨numeral, taken, fits⟩ := Option.bind_eq_some_iff.mp read
    exact ⟨holds_of_read? read, spells_of_ofNumeral? taken fits⟩
  · rintro ⟨inRange, spells⟩
    exact read?_of_spells spells inRange

theorem Spells.isBlank (spells : Spells cs n) : ∀ c ∈ cs, Text.isBlank c = false := by
  have digits : ∀ ds : List Digit, ∀ c ∈ ds.map Digit.toChar, Text.isBlank c = false := by
    intro ds c member
    obtain ⟨d, -, rfl⟩ := List.mem_map.mp member
    exact d.isBlank_toChar
  obtain ⟨ds, -, ⟨rfl | rfl, -⟩ | ⟨rfl, -⟩⟩ := spells
  · exact digits ds
  · exact List.forall_mem_cons.mpr ⟨rfl, digits ds⟩
  · exact List.forall_mem_cons.mpr ⟨rfl, digits ds⟩

end Word

/-! ### Indices -/

namespace Key

/-- The key is the text of this index, maybe between blanks. -/
def Denotes (key : String) (index : Int) : Prop :=
  Word.holds index ∧ ∃ before text after : List Char, key.toList = before ++ text ++ after ∧
    (∀ c ∈ before ++ after, Text.isBlank c) ∧ Word.Spells text index

variable {key : String} {index : Int} {items : List Json}

theorem index?_eq_some_iff : index? key = some index ↔ Denotes key index := by
  rw [index?, Word.read?_eq_some_iff]
  refine and_congr_right fun _ => ⟨fun spells => ?_, ?_⟩
  · obtain ⟨before, after, text, blank⟩ := Text.exists_trim key
    exact ⟨before, _, after, text, blank, spells⟩
  · rintro ⟨before, text, after, whole, blank, spells⟩
    have trimmed := Text.trim_padded blank spells.isBlank
    rw [← whole, String.ofList_toList] at trimmed
    rwa [trimmed, String.toList_ofList]

theorem evaluate_of_element {v : Json} (denotes : Denotes key index)
    (found : element? items index = some v) : evaluate key (.array items) = .ok v := by
  simp only [evaluate, index?_eq_some_iff.mpr denotes, found]

theorem evaluate_of_no_element (denotes : Denotes key index)
    (missing : element? items index = none) :
    evaluate key (.array items) = .error (.indexOutOfRange index items.length) := by
  simp only [evaluate, index?_eq_some_iff.mpr denotes, missing]

/-- The elements of a sequence of length `n` have the indices from `0` and the same less `n`. -/
theorem element?_eq (position : Nat) (inside : position < items.length)
    (counted : index = position ∨ index = position - items.length) :
    element? items index = some items[position] := by
  rcases counted with rfl | rfl
  · simp [element?, Int.not_lt.mpr, inside]
  · have back : (position - items.length : Int) < 0 := by omega
    simp [element?, back, inside]

theorem element?_of_outside (outside : index < -items.length ∨ items.length ≤ index) :
    element? items index = none := by
  unfold element?
  dsimp only
  split
  · next back =>
    rw [if_neg (by omega)]
  · next front =>
    rw [if_pos (by omega)]
    exact List.getElem?_eq_none (by omega)

/-- On a sequence a key is an index exactly if it is the text of a word between blanks. An index from
zero counts from the front, a negative one from the end, and all others are out of range. On a
mapping the key is compared as it is written. -/
theorem evaluate_index_or_field (key : String) :
    (∀ index, Denotes key index → ∀ items : List Json,
      (0 ≤ index → index < items.length →
        ∃ v, items[index.toNat]? = some v ∧ evaluate key (.array items) = .ok v) ∧
      (index < 0 → -items.length ≤ index →
        ∃ v, items[(items.length + index).toNat]? = some v ∧
          evaluate key (.array items) = .ok v) ∧
      (index < -items.length ∨ items.length ≤ index →
        evaluate key (.array items) = .error (.indexOutOfRange index items.length))) ∧
    ((∀ index, ¬ Denotes key index) →
      ∀ items, evaluate key (.array items) = .error (.invalidIndex key)) ∧
    (∀ before v after, key ∉ before.map Prod.fst →
      evaluate key (.object (before ++ (key, v) :: after)) = .ok v) ∧
    ∀ fields, key ∉ fields.map Prod.fst →
      evaluate key (.object fields) = .error (.keyNotFound key) := by
  refine ⟨fun index denotes items => ⟨?_, ?_, ?_⟩, ?_, ?_, ?_⟩
  · intro front inside
    obtain ⟨position, rfl⟩ := Int.eq_ofNat_of_zero_le front
    have inside : position < items.length := by omega
    refine ⟨items[position], by simp [inside], ?_⟩
    exact evaluate_of_element denotes (element?_eq position inside (.inl rfl))
  · intro back enough
    obtain ⟨position, same⟩ := Int.eq_ofNat_of_zero_le (show 0 ≤ items.length + index by omega)
    have inside : position < items.length := by omega
    refine ⟨items[position], by simp [same, inside], ?_⟩
    exact evaluate_of_element denotes (element?_eq position inside (.inr (by omega)))
  · intro outside
    exact evaluate_of_no_element denotes (element?_of_outside outside)
  · intro noIndex items
    cases read : index? key with
    | none => simp only [evaluate, read]
    | some index => exact absurd (index?_eq_some_iff.mp read) (noIndex index)
  · intro before v after absent
    have found : (before ++ (key, v) :: after).lookup key = some v := by
      refine List.lookup_eq_some_iff.mpr ⟨before, after, rfl, fun field member => ?_⟩
      exact bne_iff_ne.mpr fun same => absent (same ▸ List.mem_map_of_mem member)
    simp only [evaluate, found]
  · intro fields absent
    simp only [evaluate, Fields.lookup_eq_none_iff.mpr absent]

/-- An index with a leading zero between blanks, one at the end of the range, and a text that is
none. -/
theorem evaluate_index_or_field_padded :
    let key := "\u00a0-02 "
    Denotes key (-2) ∧ evaluate key (.array [.null, .bool true, .bool false]) = .ok (.bool true) ∧
      evaluate key (.array [.null]) = .error (.indexOutOfRange (-2) 1) ∧
      evaluate key (.object [("-2", .null), (key, .bool false)]) = .ok (.bool false) ∧
      evaluate key (.object [("-2", .null)]) = .error (.keyNotFound key) ∧
      Denotes "-9223372036854775808" Word.least ∧
      evaluate "-9223372036854775808" (.array [.null]) =
        .error (.indexOutOfRange (-9223372036854775808) 1) ∧
      (∀ index, ¬ Denotes "2." index) ∧
      evaluate "2." (.array [.null, .null, .null]) = .error (.invalidIndex "2.") := by
  intro key
  have padded : Denotes key (-2) := index?_eq_some_iff.mp (by decide)
  have least : Denotes "-9223372036854775808" Word.least := index?_eq_some_iff.mp (by decide)
  have noIndex : ∀ index, ¬ Denotes "2." index := by
    intro index denotes
    have none : index? "2." = none := by decide
    rw [index?_eq_some_iff.mpr denotes] at none
    cases none
  obtain ⟨onSequences, -, present, absent⟩ := evaluate_index_or_field key
  obtain ⟨-, back, -⟩ := onSequences (-2) padded [.null, .bool true, .bool false]
  obtain ⟨v, found, result⟩ := back (by decide) (by decide)
  obtain rfl : .bool true = v := Option.some.inj found
  refine ⟨padded, result, ?_, ?_, ?_, least, ?_, noIndex, ?_⟩
  · exact (onSequences (-2) padded [.null]).2.2 (by decide)
  · exact present [("-2", .null)] (.bool false) [] (by decide)
  · exact absent [("-2", .null)] (by decide)
  · exact ((evaluate_index_or_field _).1 _ least [.null]).2.2 (by decide)
  · exact (evaluate_index_or_field _).2.1 noIndex _

end Key

end Reshape
