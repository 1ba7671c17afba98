import Reshape.Json.Printer
import Reshape.Json.Token
import Reshape.Proofs.Except
import Reshape.Proofs.Number.Numeral

/-!
The tokens of written values. The lexer takes the text of a value apart into the tokens of its parts,
with the brackets, commas and colons around them. A word ends only with what follows it, so texts
that may end in one are told from those that do not.
-/

namespace Reshape.Json

/-- Values as JSON has them: numbers follow its grammar, and the keys of an object are distinct. -/
inductive Proper : Json → Prop
  | null : Proper .null
  | bool (b : Bool) : Proper (.bool b)
  | number {n : Numeral} : n.isJson → Proper (.number n)
  | string (s : String) : Proper (.string s)
  | array {items : List Json} : (∀ v ∈ items, Proper v) → Proper (.array items)
  | object {fields : List (String × Json)} : (fields.map Prod.fst).Nodup →
    (∀ field ∈ fields, Proper field.2) → Proper (.object fields)

/-! ### Tokens of a value -/

mutual

/-- The tokens of a value's text. -/
def tokens : Json → List Token
  | null => [.null]
  | bool b => [.bool b]
  | number n => [.number n]
  | string s => [.string (some s)]
  | array items => .mark .openArray :: [.mark .comma].intercalate (itemTokens items) ++
      [.mark .closeArray]
  | object fields => .mark .openObject :: [.mark .comma].intercalate (fieldTokens fields) ++
      [.mark .closeObject]

def itemTokens : List Json → List (List Token)
  | [] => []
  | v :: rest => tokens v :: itemTokens rest

def fieldTokens : List (String × Json) → List (List Token)
  | [] => []
  | (k, v) :: rest => (.string (some k) :: .mark .colon :: tokens v) :: fieldTokens rest

end

/-! ### Escapes -/

theorem unescape?_plain {c : Char} (noEscape : c ≠ '\\') (visible : ¬ c.toNat < 32)
    (rest : List Char) : unescape? (c :: rest) = (unescape? rest).map (c.toNat :: ·) := by
  rw [unescape?, if_neg (not_or.mpr ⟨noEscape, visible⟩)]
  all_goals simp [noEscape]

theorem unescape?_short {c plain : Char} (short : shortEscape? c = some plain) (rest : List Char) :
    unescape? ('\\' :: c :: rest) = (unescape? rest).map (plain.toNat :: ·) := by
  have other : c ≠ 'u' := by
    rintro rfl
    cases short
  rw [unescape?, short]
  · cases unescape? rest <;> rfl
  · simp [other]

theorem hexValues?_control :
    ∀ n < 32, hexValues? ['0', '0', Text.hexDigit (n / 16), Text.hexDigit (n % 16)] = some n := by
  decide

theorem unescape?_escapeChar (c : Char) (rest : List Char) :
    unescape? (escapeChar c ++ rest) = (unescape? rest).map (c.toNat :: ·) := by
  unfold escapeChar
  split
  -- The seven short escapes, then four digits, then a character that stands for itself.
  iterate 7
    · exact unescape?_short rfl rest
  · next _ noEscape _ _ _ _ _ =>
    split
    · next control =>
      simp only [List.cons_append, List.nil_append]
      rw [unescape?, hexValues?_control _ control]
      cases unescape? rest <;> rfl
    · next visible => exact unescape?_plain noEscape visible rest

theorem unescape?_flatMap (cs : List Char) :
    unescape? (cs.flatMap escapeChar) = some (cs.map Char.toNat) := by
  induction cs with
  | nil => rfl
  | cons c cs ih => rw [List.flatMap_cons, unescape?_escapeChar, ih, Option.map_some, List.map_cons]

/-- The code points of a text hold no halves of surrogate pairs. -/
theorem joinSurrogates?_toNat (cs : List Char) : joinSurrogates? (cs.map Char.toNat) = some cs := by
  induction cs with
  | nil => rfl
  | cons c cs ih =>
    have scalar : c.toNat < 0xD800 ∨ 0xDFFF < c.toNat ∧ c.toNat < 0x110000 := c.valid
    rw [List.map_cons, joinSurrogates?.eq_def]
    dsimp only
    rw [if_neg (by omega), if_neg (by omega), ih, Option.map_some, Char.ofNat_toNat]

theorem ofLiteral?_escaped (s : String) :
    Token.ofLiteral? (s.toList.flatMap escapeChar) = some (.string (some s)) := by
  rw [Token.ofLiteral?, unescape?_flatMap, Option.map_some, joinSurrogates?_toNat, Option.map_some,
    String.ofList_toList]

/-! ### The lexer -/

/-- The lexer takes the text for these tokens, of which the last may be a word that is not ended yet. -/
def Lexes (cs : List Char) (ts : List Token) : Prop :=
  ∀ before, ∃ l, cs.foldlM Lexer.step? ⟨before, .nothing⟩ = some l ∧
    l.endWord? = some (ts.reverse ++ before)

/-- The lexer takes the text for these tokens and is in the middle of nothing. -/
def Closes (cs : List Char) (ts : List Token) : Prop :=
  ∀ before, cs.foldlM Lexer.step? ⟨before, .nothing⟩ = some ⟨ts.reverse ++ before, .nothing⟩

variable {cs cs' : List Char} {ts ts' : List Token}

theorem Closes.lexes (closes : Closes cs ts) : Lexes cs ts := fun before => ⟨_, closes before, rfl⟩

theorem closes_nil : Closes [] [] := fun _ => rfl

theorem Closes.append (first : Closes cs ts) (later : Lexes cs' ts') :
    Lexes (cs ++ cs') (ts ++ ts') := by
  intro before
  rw [List.foldlM_append, first before, List.reverse_append, List.append_assoc]
  exact later _

/-- A mark ends the word before it. -/
theorem step?_mark {l : Lexer} {before : List Token} {c : Char} {m : Mark}
    (mark : Mark.ofChar? c = some m) (ended : l.endWord? = some before) :
    l.step? c = some ⟨.mark m :: before, .nothing⟩ := by
  rw [Lexer.step?]
  split
  · next taken string => simp [Lexer.endWord?, string] at ended
  · next taken escape => simp [Lexer.endWord?, escape] at ended
  all_goals
    rw [mark, ended]
    rfl

theorem Lexes.mark (lexes : Lexes cs ts) {c : Char} {m : Mark} (mark : Mark.ofChar? c = some m) :
    Closes (cs ++ [c]) (ts ++ [.mark m]) := by
  intro before
  obtain ⟨l, run, ended⟩ := lexes before
  rw [List.foldlM_append, run]
  simp [step?_mark mark ended]

theorem closes_mark {c : Char} {m : Mark} (mark : Mark.ofChar? c = some m) :
    Closes [c] [.mark m] := closes_nil.lexes.mark mark

theorem Lexes.enclosed (inside : Lexes cs ts) {c c' : Char} {m m' : Mark}
    (opening : Mark.ofChar? c = some m) (closing : Mark.ofChar? c' = some m') :
    Lexes (c :: cs ++ [c']) (.mark m :: ts ++ [.mark m']) :=
  (((closes_mark opening).append inside).mark closing).lexes

/-- A run of characters that are all taken. -/
theorem foldlM_step?_taken {k : List Char → Lexer} {cs : List Char}
    (each : ∀ c ∈ cs, ∀ taken, (k taken).step? c = some (k (c :: taken)))
    (taken : List Char) :
    cs.foldlM Lexer.step? (k taken) = some (k (cs.reverse ++ taken)) := by
  induction cs generalizing taken with
  | nil => rfl
  | cons c cs ih =>
    rw [List.forall_mem_cons] at each
    rw [List.foldlM_cons, each.1, List.reverse_cons, List.append_assoc]
    exact ih each.2 (c :: taken)

/-! ### Strings -/

theorem foldlM_step?_plain {cs : List Char} (plain : ∀ c ∈ cs, c ≠ '"' ∧ c ≠ '\\')
    (before : List Token) (taken : List Char) :
    cs.foldlM Lexer.step? ⟨before, .string taken⟩ =
      some ⟨before, .string (cs.reverse ++ taken)⟩ := by
  refine foldlM_step?_taken (k := fun taken => ⟨before, .string taken⟩) ?_ taken
  intro c member taken
  obtain ⟨quote, backslash⟩ := plain c member
  simp [Lexer.step?, quote, backslash]

/-- An escaped character is itself, or an escape in which no quote or backslash stands but as its
second character. -/
theorem escapeChar_cases (c : Char) :
    (∀ d ∈ escapeChar c, d ≠ '"' ∧ d ≠ '\\') ∨
      ∃ kind rest, escapeChar c = '\\' :: kind :: rest ∧ ∀ d ∈ rest, d ≠ '"' ∧ d ≠ '\\' := by
  have digit : ∀ n < 16, Text.hexDigit n ≠ '"' ∧ Text.hexDigit n ≠ '\\' := by decide
  unfold escapeChar
  split
  iterate 7
    · exact .inr ⟨_, [], rfl, by simp⟩
  · next quote noEscape _ _ _ _ _ =>
    split
    · next control =>
      have first := digit (c.toNat / 16) (by omega)
      have second := digit (c.toNat % 16) (by omega)
      exact .inr ⟨_, _, rfl, by simpa using ⟨first, second⟩⟩
    · exact .inl (by simpa using ⟨quote, noEscape⟩)

theorem foldlM_step?_escapeChar (c : Char) (before : List Token) (taken : List Char) :
    (escapeChar c).foldlM Lexer.step? ⟨before, .string taken⟩ =
      some ⟨before, .string ((escapeChar c).reverse ++ taken)⟩ := by
  rcases escapeChar_cases c with plain | ⟨kind, rest, same, plain⟩
  · exact foldlM_step?_plain plain before taken
  · rw [same]
    simpa [Lexer.step?] using foldlM_step?_plain plain before (kind :: '\\' :: taken)

theorem foldlM_step?_escaped (cs : List Char) (before : List Token) (taken : List Char) :
    (cs.flatMap escapeChar).foldlM Lexer.step? ⟨before, .string taken⟩ =
      some ⟨before, .string ((cs.flatMap escapeChar).reverse ++ taken)⟩ := by
  induction cs generalizing taken with
  | nil => rfl
  | cons c cs ih =>
    rw [List.flatMap_cons, List.foldlM_append, foldlM_step?_escapeChar, List.reverse_append,
      List.append_assoc]
    exact ih _

theorem closes_stringText (s : String) : Closes (stringText s).toList [.string (some s)] := by
  intro before
  have opened : Lexer.step? ⟨before, .nothing⟩ '"' = some ⟨before, .string []⟩ := rfl
  have closed : Lexer.step? ⟨before, .string (s.toList.flatMap escapeChar).reverse⟩ '"' =
      some ⟨.string (some s) :: before, .nothing⟩ := by
    simp [Lexer.step?, ofLiteral?_escaped]
  rw [stringText, String.toList_ofList, List.cons_append, List.foldlM_cons, opened]
  simp [foldlM_step?_escaped, closed]

/-! ### Words -/

/-- The character does not end a word. -/
def Continues (c : Char) : Prop := Mark.ofChar? c = none ∧ isSpace c = false ∧ c ≠ '"'

instance (c : Char) : Decidable (Continues c) := inferInstanceAs (Decidable (_ ∧ _ ∧ _))

theorem foldlM_step?_word {cs : List Char} (continues : ∀ c ∈ cs, Continues c)
    (before : List Token) (taken : List Char) :
    cs.foldlM Lexer.step? ⟨before, .word taken⟩ = some ⟨before, .word (cs.reverse ++ taken)⟩ := by
  refine foldlM_step?_taken (k := fun taken => ⟨before, .word taken⟩) ?_ taken
  intro c member taken
  obtain ⟨mark, space, quote⟩ := continues c member
  simp [Lexer.step?, mark, space, quote]

theorem lexes_word {t : Token} (continues : ∀ c ∈ cs, Continues c) (read : Token.ofWord? cs = some t)
    (nonempty : cs ≠ []) : Lexes cs [t] := by
  intro before
  obtain ⟨c, rest, rfl⟩ := List.exists_cons_of_ne_nil nonempty
  rw [List.forall_mem_cons] at continues
  obtain ⟨mark, space, quote⟩ := continues.1
  have step : Lexer.step? ⟨before, .nothing⟩ c = some ⟨before, .word [c]⟩ := by
    simp [Lexer.step?, mark, space, quote]
  rw [List.foldlM_cons, step]
  refine ⟨_, foldlM_step?_word continues.2 before [c], ?_⟩
  simp [Lexer.endWord?, read]

theorem continues_of_mem_toChars (n : Numeral) : ∀ c ∈ n.toChars, Continues c := by
  have digits : ∀ ds : List Digit, ∀ c ∈ ds.map Digit.toChar, Continues c := by
    have digit : ∀ d : Digit, Continues d.toChar := by decide
    intro ds c member
    obtain ⟨d, -, rfl⟩ := List.mem_map.mp member
    exact digit d
  have signs : ∀ negative : Bool, Continues (if negative then '-' else '+') := by decide
  intro c member
  obtain ⟨negative, whole, fraction, exponent⟩ := n
  simp only [Numeral.toChars, List.mem_append] at member
  rcases member with ((member | member) | member) | member
  · cases negative <;> simp at member
    exact member ▸ signs true
  · exact digits whole c member
  · cases fraction with
    | none => simp at member
    | some ds =>
      rcases List.mem_cons.mp member with rfl | member
      · decide
      · exact digits ds c member
  · cases exponent with
    | none => simp at member
    | some e =>
      rcases List.mem_cons.mp member with rfl | member
      · decide
      · rcases List.mem_cons.mp member with rfl | member
        · exact signs e.negative
        · exact digits e.digits c member

theorem ofWord?_toChars {n : Numeral} (json : n.isJson) :
    Token.ofWord? n.toChars = some (.number n) := by
  have read := Numeral.readJson?_toChars json
  -- The literals are no numbers, so the word of a number is none of them.
  have other : ∀ cs, Numeral.readJson? cs = none → n.toChars ≠ cs := by
    rintro cs none rfl
    rw [none] at read
    cases read
  rw [Token.ofWord?, if_neg (other _ (by decide)), if_neg (other _ (by decide)),
    if_neg (other _ (by decide)), read, Option.map_some]

theorem lexes_toChars {n : Numeral} (json : n.isJson) : Lexes n.toChars [.number n] := by
  refine lexes_word (continues_of_mem_toChars n) (ofWord?_toChars json) fun empty => ?_
  have read := Numeral.readJson?_toChars json
  rw [empty] at read
  cases read

/-! ### Values -/

theorem itemTexts_eq (items : List Json) : itemTexts items = items.map text := by
  induction items with
  | nil => rfl
  | cons v rest ih => rw [itemTexts, List.map_cons, ih]

theorem fieldTexts_eq (fields : List (String × Json)) :
    fieldTexts fields = fields.map fun field => stringText field.1 ++ ":" ++ text field.2 := by
  induction fields with
  | nil => rfl
  | cons field rest ih => rw [fieldTexts, List.map_cons, ih]

theorem itemTokens_eq (items : List Json) : itemTokens items = items.map tokens := by
  induction items with
  | nil => rfl
  | cons v rest ih => rw [itemTokens, List.map_cons, ih]

theorem fieldTokens_eq (fields : List (String × Json)) :
    fieldTokens fields =
      fields.map fun field => .string (some field.1) :: .mark .colon :: tokens field.2 := by
  induction fields with
  | nil => rfl
  | cons field rest ih => rw [fieldTokens, List.map_cons, ih]

theorem lexes_intercalate {α : Type} {written : α → List Char} {taken : α → List Token}
    {parts : List α} (each : ∀ part ∈ parts, Lexes (written part) (taken part)) :
    Lexes ([','].intercalate (parts.map written)) ([.mark .comma].intercalate (parts.map taken)) := by
  induction parts with
  | nil => exact closes_nil.lexes
  | cons part rest ih =>
    rw [List.forall_mem_cons] at each
    cases rest with
    | nil => simpa using each.1
    | cons next rest =>
      rw [List.map_cons, List.map_cons, List.map_cons, List.map_cons, List.intercalate_cons_cons,
        List.intercalate_cons_cons]
      exact (each.1.mark rfl).append (ih each.2)

theorem Proper.lexes {v : Json} (proper : v.Proper) : Lexes v.text.toList v.tokens := by
  induction proper with
  | null =>
    have word : ∀ c ∈ ['n', 'u', 'l', 'l'], Continues c := by
      simp [Continues, Mark.ofChar?, isSpace]
    exact lexes_word word rfl (List.cons_ne_nil _ _)
  | bool b =>
    cases b with
    | true =>
      have word : ∀ c ∈ ['t', 'r', 'u', 'e'], Continues c := by
        simp [Continues, Mark.ofChar?, isSpace]
      exact lexes_word word rfl (List.cons_ne_nil _ _)
    | false =>
      have word : ∀ c ∈ ['f', 'a', 'l', 's', 'e'], Continues c := by
        simp [Continues, Mark.ofChar?, isSpace]
      exact lexes_word word rfl (List.cons_ne_nil _ _)
  | @number n json =>
    rw [text, Numeral.text, String.toList_ofList]
    exact lexes_toChars json
  | string s => exact (closes_stringText s).lexes
  | @array items _ ih =>
    have written : (text (.array items)).toList =
        '[' :: [','].intercalate (items.map fun v => (text v).toList) ++ [']'] := by
      simp [text, itemTexts_eq, String.toList_intercalate, Function.comp_def]
    rw [written, tokens, itemTokens_eq]
    exact (lexes_intercalate ih).enclosed rfl rfl
  | @object fields _ _ ih =>
    have written : (text (.object fields)).toList =
        '\x7b' :: [','].intercalate (fields.map fun field =>
          (stringText field.1).toList ++ [':'] ++ (text field.2).toList) ++ ['\x7d'] := by
      simp [text, fieldTexts_eq, String.toList_intercalate, Function.comp_def]
    rw [written, tokens, fieldTokens_eq]
    refine (lexes_intercalate fun field member => ?_).enclosed rfl rfl
    exact ((closes_stringText field.1).lexes.mark rfl).append (ih field member)

/-- The lexer takes the text of a value apart into the value's tokens. -/
theorem Proper.tokens?_text {v : Json} (proper : v.Proper) :
    tokens? v.text.toList = some v.tokens := by
  obtain ⟨l, run, ended⟩ := proper.lexes []
  rw [tokens?, run]
  simp [ended]

/-! ### Numbers among the tokens -/

/-- A number among the tokens follows JSON's grammar. -/
def Token.Grammatical : Token → Prop
  | .number n => n.isJson
  | _ => True

theorem Token.grammatical_of_ofWord? {t : Token} (read : ofWord? cs = some t) : t.Grammatical := by
  rw [ofWord?] at read
  split_ifs at read
  iterate 3
    · cases read
      trivial
  · obtain ⟨n, number, rfl⟩ := Option.map_eq_some_iff.mp read
    unfold Numeral.readJson? at number
    split at number
    · cases number
    · exact (Option.filter_eq_some_iff.mp number).2

theorem Token.grammatical_of_ofLiteral? {t : Token} (read : ofLiteral? cs = some t) :
    t.Grammatical := by
  obtain ⟨codes, -, rfl⟩ := Option.map_eq_some_iff.mp read
  trivial

theorem Lexer.endWord?_grammatical {l : Lexer} (each : ∀ t ∈ l.tokens, t.Grammatical)
    (ended : l.endWord? = some ts) : ∀ t ∈ ts, t.Grammatical := by
  rw [endWord?] at ended
  split at ended
  · exact Option.some.inj ended ▸ each
  · obtain ⟨word, read, rfl⟩ := Option.map_eq_some_iff.mp ended
    exact List.forall_mem_cons.mpr ⟨Token.grammatical_of_ofWord? read, each⟩
  all_goals cases ended

theorem Lexer.step?_grammatical {l l' : Lexer} {c : Char} (each : ∀ t ∈ l.tokens, t.Grammatical)
    (step : l.step? c = some l') : ∀ t ∈ l'.tokens, t.Grammatical := by
  unfold step? at step
  split at step
  · split_ifs at step
    · obtain ⟨t, read, rfl⟩ := Option.map_eq_some_iff.mp step
      exact List.forall_mem_cons.mpr ⟨Token.grammatical_of_ofLiteral? read, each⟩
    all_goals
      cases step
      exact each
  · cases step
    exact each
  all_goals
    split at step
    · obtain ⟨ts, ended, rfl⟩ := Option.map_eq_some_iff.mp step
      exact List.forall_mem_cons.mpr ⟨trivial, endWord?_grammatical each ended⟩
    · split_ifs at step
      iterate 2
        · obtain ⟨ts, ended, rfl⟩ := Option.map_eq_some_iff.mp step
          exact endWord?_grammatical each ended
      · split at step
        all_goals
          cases step
          exact each

theorem grammatical_of_tokens? (lexed : tokens? cs = some ts) : ∀ t ∈ ts, t.Grammatical := by
  obtain ⟨l, run, done⟩ := Option.bind_eq_some_iff.mp lexed
  obtain ⟨reversed, ended, done⟩ := Option.bind_eq_some_iff.mp done
  obtain rfl := Option.some.inj done
  have kept : ∀ t ∈ l.tokens, t.Grammatical :=
    foldlM_invariant (P := fun l => ∀ t ∈ l.tokens, t.Grammatical)
      (fun _ _ _ _ => Lexer.step?_grammatical) (fun _ member => (List.not_mem_nil member).elim) run
  intro t member
  exact Lexer.endWord?_grammatical kept ended t (List.mem_reverse.mp member)

end Reshape.Json
