/-!
Numerals: numbers as they are written in decimal notation. A numeral keeps every digit of its text,
so that a number which no operation touches is printed as it was read.
-/

namespace Reshape

abbrev Digit := Fin 10

namespace Digit

def zero : Digit := ⟨0, by decide⟩

def ofChar? (c : Char) : Option Digit :=
  if h : 48 ≤ c.toNat ∧ c.toNat < 58 then some ⟨c.toNat - 48, by omega⟩ else none

def toChar (d : Digit) : Char := Char.ofNat (48 + d.val)

/-- The number that a sequence of digits denotes, most significant digit first. -/
def toNat (ds : List Digit) : Nat := ds.foldl (fun n d => 10 * n + d.val) 0

/-- Digits of `n` put before `ds`; `fuel` bounds their count. -/
def prependNat : Nat → Nat → List Digit → List Digit
  | 0, _, ds => ds
  | fuel + 1, n, ds =>
    let last : Digit := ⟨n % 10, Nat.mod_lt _ (by decide)⟩
    if n < 10 then last :: ds else prependNat fuel (n / 10) (last :: ds)

/-- The digits of `n`, with no leading zero but for zero itself. -/
def ofNat (n : Nat) : List Digit := prependNat (n + 1) n []

end Digit

/-- The power of ten at the end of a numeral. -/
structure Exponent where
  negative : Bool
  digits : List Digit
  deriving DecidableEq, Repr

/-- A number in decimal notation: a sign, the digits before the point, those after it where there is
a point, and an exponent where there is one. -/
structure Numeral where
  negative : Bool
  whole : List Digit
  fraction : Option (List Digit)
  exponent : Option Exponent
  deriving DecidableEq, Repr

namespace Numeral

def fractionDigits (n : Numeral) : List Digit := n.fraction.getD []

/-- All digits but the exponent's, read as one number. -/
def coefficient (n : Numeral) : Nat := Digit.toNat (n.whole ++ n.fractionDigits)

def exponentValue (n : Numeral) : Int :=
  match n.exponent with
  | none => 0
  | some e => if e.negative then -(Digit.toNat e.digits : Int) else Digit.toNat e.digits

/-- The power of ten that the coefficient is multiplied by. -/
def power (n : Numeral) : Int := n.exponentValue - n.fractionDigits.length

def isPlain (n : Numeral) : Bool := n.exponent.isNone

/-- An integer literal: neither a point nor an exponent. -/
def isInteger (n : Numeral) : Bool := n.fraction.isNone && n.exponent.isNone

def integer? (n : Numeral) : Option Int :=
  if n.isInteger && !n.whole.isEmpty then
    some (if n.negative then -(Digit.toNat n.whole : Int) else Digit.toNat n.whole)
  else none

/-- The grammar of JSON numbers: a leading zero stands alone before the point, and a point or an
exponent is followed by digits. -/
def isJson (n : Numeral) : Bool :=
  (match n.whole with
    | [] => false
    | d :: rest => d.val != 0 || rest.isEmpty) &&
  n.fraction.all (!·.isEmpty) && n.exponent.all (!·.digits.isEmpty)

def ofInt (i : Int) : Numeral := ⟨i < 0, Digit.ofNat i.natAbs, none, none⟩

/-! ### Text -/

/-- The text of a numeral: the exponent's mark is in lower case and its sign always written. -/
def toChars (n : Numeral) : List Char :=
  (if n.negative then ['-'] else []) ++ n.whole.map Digit.toChar ++
    (match n.fraction with
      | none => []
      | some ds => '.' :: ds.map Digit.toChar) ++
    (match n.exponent with
      | none => []
      | some e => 'e' :: (if e.negative then '-' else '+') :: e.digits.map Digit.toChar)

def text (n : Numeral) : String := String.ofList n.toChars

def takeDigits : List Char → List Digit × List Char
  | [] => ([], [])
  | c :: cs =>
    match Digit.ofChar? c with
    | none => ([], c :: cs)
    | some d => let (ds, rest) := takeDigits cs; (d :: ds, rest)

def takeSign : List Char → Bool × List Char
  | '-' :: cs => (true, cs)
  | '+' :: cs => (false, cs)
  | cs => (false, cs)

def takeFraction : List Char → Option (List Digit) × List Char
  | '.' :: cs => let (ds, rest) := takeDigits cs; (some ds, rest)
  | cs => (none, cs)

/-- The exponent that a text consists of; `some none` where the text is empty. -/
def readExponent? : List Char → Option (Option Exponent)
  | [] => some none
  | c :: cs =>
    if c = 'e' ∨ c = 'E' then
      match takeSign cs with
      | (negative, cs) =>
        match takeDigits cs with
        | (d :: ds, []) => some (some ⟨negative, d :: ds⟩)
        | _ => none
    else none

/-- Reads a numeral that is the whole text: an optional sign, digits with at most one point among or
around them and at least one digit, and an optional exponent. -/
def read? (cs : List Char) : Option Numeral :=
  let (negative, cs) := takeSign cs
  let (whole, cs) := takeDigits cs
  let (fraction, cs) := takeFraction cs
  if whole.isEmpty && (fraction.getD []).isEmpty then none
  else (readExponent? cs).map fun exponent => ⟨negative, whole, fraction, exponent⟩

def readJson? (cs : List Char) : Option Numeral :=
  match cs with
  | '+' :: _ => none
  | cs => (read? cs).filter isJson

end Numeral

end Reshape
