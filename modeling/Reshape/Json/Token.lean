import Reshape.Number.Numeral

/-!
Tokens of JSON text. The lexer is a fold over the characters: numbers and the three literals are
words, that is, runs of characters between blanks, marks and strings, and are told apart once
complete.
-/

namespace Reshape.Json

inductive Mark where
  | openArray
  | closeArray
  | openObject
  | closeObject
  | comma
  | colon
  deriving DecidableEq, Repr

inductive Token where
  | mark (m : Mark)
  | null
  | bool (b : Bool)
  | number (n : Numeral)
  /-- A string, or none where an escape stands for half of a surrogate pair. -/
  | string (s : Option String)
  deriving DecidableEq, Repr

/-! ### Strings -/

def hexValue? (c : Char) : Option Nat :=
  if '0' ≤ c ∧ c ≤ '9' then some (c.toNat - 48)
  else if 'a' ≤ c ∧ c ≤ 'f' then some (c.toNat - 87)
  else if 'A' ≤ c ∧ c ≤ 'F' then some (c.toNat - 55)
  else none

def hexValues? (cs : List Char) : Option Nat :=
  cs.foldlM (fun n c => (hexValue? c).map (16 * n + ·)) 0

def shortEscape? : Char → Option Char
  | '"' => some '"'
  | '\\' => some '\\'
  | '/' => some '/'
  | 'b' => some '\x08'
  | 'f' => some '\x0c'
  | 'n' => some '\n'
  | 'r' => some '\r'
  | 't' => some '\t'
  | _ => none

/-- The code points that the inside of a string literal stands for; the two halves of a surrogate
pair count as one each. Control characters and unknown escapes are refused. -/
def unescape? : List Char → Option (List Nat)
  | [] => some []
  | '\\' :: 'u' :: a :: b :: c :: d :: rest => do
    let code ← hexValues? [a, b, c, d]
    return code :: (← unescape? rest)
  | '\\' :: c :: rest => do
    let plain ← shortEscape? c
    return plain.toNat :: (← unescape? rest)
  | c :: rest =>
    if c = '\\' ∨ c.toNat < 32 then none else (unescape? rest).map (c.toNat :: ·)

/-- Joins surrogate pairs; one half without the other is no character. -/
def joinSurrogates? : List Nat → Option (List Char)
  | [] => some []
  | high :: rest =>
    if 0xD800 ≤ high ∧ high < 0xDC00 then
      match rest with
      | low :: rest =>
        if 0xDC00 ≤ low ∧ low < 0xE000 then
          (joinSurrogates? rest).map
            (Char.ofNat (0x10000 + (high - 0xD800) * 0x400 + (low - 0xDC00)) :: ·)
        else none
      | [] => none
    else if 0xDC00 ≤ high ∧ high < 0xE000 then none
    else (joinSurrogates? rest).map (Char.ofNat high :: ·)

/-- The token of a string literal, given what stands between its quotes. -/
def Token.ofLiteral? (inside : List Char) : Option Token :=
  (unescape? inside).map fun codes => .string ((joinSurrogates? codes).map String.ofList)

/-! ### Lexer -/

def Token.ofWord? (cs : List Char) : Option Token :=
  if cs = ['n', 'u', 'l', 'l'] then some .null
  else if cs = ['t', 'r', 'u', 'e'] then some (.bool true)
  else if cs = ['f', 'a', 'l', 's', 'e'] then some (.bool false)
  else (Numeral.readJson? cs).map .number

def Mark.ofChar? : Char → Option Mark
  | '[' => some .openArray
  | ']' => some .closeArray
  | '\x7b' => some .openObject
  | '\x7d' => some .closeObject
  | ',' => some .comma
  | ':' => some .colon
  | _ => none

/-- JSON's own blanks. -/
def isSpace (c : Char) : Bool := c = ' ' || c = '\n' || c = '\r' || c = '\t'

/-- What the lexer is in the middle of; characters taken so far are in reverse order. -/
inductive Pending where
  | nothing
  | word (taken : List Char)
  | string (taken : List Char)
  /-- A string, right after a backslash. -/
  | escape (taken : List Char)
  deriving DecidableEq, Repr

structure Lexer where
  /-- Complete tokens in reverse order. -/
  tokens : List Token
  pending : Pending

namespace Lexer

def endWord? (l : Lexer) : Option (List Token) :=
  match l.pending with
  | .nothing => some l.tokens
  | .word taken => (Token.ofWord? taken.reverse).map (· :: l.tokens)
  | .string _ | .escape _ => none

def step? (l : Lexer) (c : Char) : Option Lexer :=
  match l.pending with
  | .string taken =>
    if c = '"' then
      (Token.ofLiteral? taken.reverse).map fun token => ⟨token :: l.tokens, .nothing⟩
    else if c = '\\' then some ⟨l.tokens, .escape (c :: taken)⟩
    else some ⟨l.tokens, .string (c :: taken)⟩
  | .escape taken => some ⟨l.tokens, .string (c :: taken)⟩
  | .nothing | .word _ =>
    match Mark.ofChar? c with
    | some m => l.endWord?.map fun tokens => ⟨.mark m :: tokens, .nothing⟩
    | none =>
      if isSpace c then l.endWord?.map fun tokens => ⟨tokens, .nothing⟩
      else if c = '"' then l.endWord?.map fun tokens => ⟨tokens, .string []⟩
      else
        match l.pending with
        | .word taken => some ⟨l.tokens, .word (c :: taken)⟩
        | _ => some ⟨l.tokens, .word [c]⟩

end Lexer

def tokens? (cs : List Char) : Option (List Token) := do
  let l ← cs.foldlM Lexer.step? ⟨[], .nothing⟩
  return (← l.endWord?).reverse

end Reshape.Json
