import Reshape.Proofs.Number.Numeral

/-!
Plain literals. The texts that are read as numerals without an exponent are an optional sign and
digits with at most one point among or around them.
-/

namespace Reshape

theorem Digit.eq_toChar {c : Char} {d : Digit} (read : ofChar? c = some d) : c = d.toChar := by
  unfold ofChar? at read
  split at read
  · next digit =>
    cases read
    have code : 48 + (c.toNat - 48) = c.toNat := by omega
    rw [toChar, code, Char.ofNat_toNat]
  · cases read

namespace Numeral

variable {n : Numeral} {cs rest : List Char} {ds : List Digit} {negative : Bool}

/-- `cs` has the digits of `n`, of which there is at least one, and its point; a plus sign may stand
before them. -/
structure IsLiteral (n : Numeral) (cs : List Char) : Prop where
  plain : n.isPlain
  digits : n.whole ++ n.fractionDigits ≠ []
  text : cs = n.toChars ∨ n.negative = false ∧ cs = '+' :: n.toChars

/-! ### What is taken from a text -/

theorem takeSign_eq (taken : takeSign cs = (negative, rest)) :
    cs = (if negative then ['-'] else []) ++ rest ∨ negative = false ∧ cs = '+' :: rest := by
  unfold takeSign at taken
  split at taken
  · cases taken
    exact .inl rfl
  · cases taken
    exact .inr ⟨rfl, rfl⟩
  · cases taken
    exact .inl rfl

theorem takeDigits_eq (taken : takeDigits cs = (ds, rest)) : cs = ds.map Digit.toChar ++ rest := by
  induction cs generalizing ds with
  | nil =>
    cases taken
    rfl
  | cons c cs ih =>
    rw [takeDigits] at taken
    split at taken
    · cases taken
      rfl
    · next d digit =>
      cases taken
      rw [List.map_cons, List.cons_append, ← ih rfl, Digit.eq_toChar digit]

theorem takeFraction_eq {fraction : Option (List Digit)}
    (taken : takeFraction cs = (fraction, rest)) : cs = fractionChars fraction ++ rest := by
  unfold takeFraction at taken
  split at taken
  · next cs =>
    cases taken
    rw [fractionChars, List.cons_append, ← takeDigits_eq rfl]
  · cases taken
    rfl

theorem readExponent?_eq_some_none (read : readExponent? cs = some none) : cs = [] := by
  cases cs with
  | nil => rfl
  | cons c cs =>
    rw [readExponent?] at read
    split at read
    · split at read
      split at read <;> cases read
    · cases read

/-! ### Reading -/

theorem toChars_of_isPlain (plain : n.isPlain) :
    n.toChars = (if n.negative then ['-'] else []) ++
      (n.whole.map Digit.toChar ++ fractionChars n.fraction) := by
  have none : n.exponent = none := by simpa [isPlain] using plain
  rw [toChars_eq, none, exponentChars, List.append_nil, List.append_assoc]

theorem isLiteral_of_read? (read : read? cs = some n) (plain : n.isPlain) : n.IsLiteral cs := by
  rcases sign : takeSign cs with ⟨negative, cs₁⟩
  rcases first : takeDigits cs₁ with ⟨whole, cs₂⟩
  rcases second : takeFraction cs₂ with ⟨fraction, cs₃⟩
  simp only [Numeral.read?, sign, first, second] at read
  split at read
  · cases read
  next some =>
  obtain ⟨exponent, last, rfl⟩ := Option.map_eq_some_iff.mp read
  obtain rfl : exponent = none := by simpa [isPlain] using plain
  obtain rfl := readExponent?_eq_some_none last
  have body := takeDigits_eq first
  rw [takeFraction_eq second, List.append_nil] at body
  refine ⟨plain, by simpa [fractionDigits] using some, ?_⟩
  rw [toChars_of_isPlain plain, ← body]
  rcases takeSign_eq sign with text | ⟨rfl, text⟩
  · exact .inl text
  · exact .inr ⟨rfl, text⟩

theorem IsLiteral.takeSign_eq (literal : n.IsLiteral cs) :
    takeSign cs = (n.negative, n.whole.map Digit.toChar ++ fractionChars n.fraction) := by
  obtain ⟨plain, digits, text⟩ := literal
  rw [toChars_of_isPlain plain] at text
  -- Without a sign the text starts with a digit or with the point.
  have unsigned : takeSign (n.whole.map Digit.toChar ++ fractionChars n.fraction) =
      (false, n.whole.map Digit.toChar ++ fractionChars n.fraction) := by
    obtain ⟨negative, _ | ⟨d, ds⟩, _ | fraction, exponent⟩ := n
    · exact absurd rfl digits
    · rfl
    · exact takeSign_toChar d _
    · exact takeSign_toChar d _
  rcases text with rfl | ⟨positive, rfl⟩
  · cases sign : n.negative with
    | true => rfl
    | false => exact unsigned
  · rw [positive]
    rfl

theorem IsLiteral.read?_eq (literal : n.IsLiteral cs) : read? cs = some n := by
  have noDigit : ([] : List Char).head?.bind Digit.ofChar? = none := rfl
  have stop : (fractionChars n.fraction).head?.bind Digit.ofChar? = none := by
    cases n.fraction <;> rfl
  have second := takeFraction_append n.fraction noDigit (by simp)
  rw [List.append_nil] at second
  have exponent : n.exponent = none := by simpa [isPlain] using literal.plain
  simp only [read?, literal.takeSign_eq, takeDigits_append n.whole stop, second]
  rw [if_neg (by simpa [fractionDigits] using literal.digits), readExponent?, Option.map_some,
    ← exponent]

end Numeral

end Reshape
