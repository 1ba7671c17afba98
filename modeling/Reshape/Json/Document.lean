import Reshape.Json.Basic
import Reshape.Json.Token

/-!
Documents: JSON text as it is written, before it becomes a value. A document keeps every field of an
object, repeated ones too, and strings that are no text; `Document.value?` is the value that it
denotes.
-/

namespace Reshape

/-- The tree of a JSON text. A string is none where it holds half of a surrogate pair. -/
inductive Document where
  | null
  | bool (b : Bool)
  | number (n : Numeral)
  | string (s : Option String)
  | array (items : List Document)
  | object (fields : List (Option String × Document))
  deriving Inhabited

namespace Document

open Json (Token Mark)

/-! ### Reading -/

/-- A bracket that is still open, with what is complete inside it in reverse order. -/
inductive Frame where
  | array (items : List Document)
  | object (fields : List (Option String × Document)) (key : Option String)

/-- What may come next. -/
inductive Expected where
  | value
  /-- Right after the opening bracket of an array. -/
  | valueOrClose
  /-- Right after the opening brace of an object. -/
  | keyOrClose
  /-- After a comma in an object, with the fields so far. -/
  | key (fields : List (Option String × Document))
  | colon (fields : List (Option String × Document)) (key : Option String)
  /-- After a complete value: a comma, a closing bracket or the end. -/
  | separator (value : Document)

structure Reader where
  frames : List Frame
  expected : Expected

namespace Reader

def startValue? (frames : List Frame) : Token → Option Reader
  | .null => some ⟨frames, .separator .null⟩
  | .bool b => some ⟨frames, .separator (.bool b)⟩
  | .number n => some ⟨frames, .separator (.number n)⟩
  | .string s => some ⟨frames, .separator (.string s)⟩
  | .mark .openArray => some ⟨.array [] :: frames, .valueOrClose⟩
  | .mark .openObject => some ⟨frames, .keyOrClose⟩
  | .mark _ => none

def separate? (frames : List Frame) (value : Document) (m : Mark) : Option Reader :=
  match frames, m with
  | .array items :: frames, .comma => some ⟨.array (value :: items) :: frames, .value⟩
  | .array items :: frames, .closeArray =>
    some ⟨frames, .separator (.array (value :: items).reverse)⟩
  | .object fields key :: frames, .comma => some ⟨frames, .key ((key, value) :: fields)⟩
  | .object fields key :: frames, .closeObject =>
    some ⟨frames, .separator (.object ((key, value) :: fields).reverse)⟩
  | _, _ => none

def step? (r : Reader) (t : Token) : Option Reader :=
  match r.expected, t with
  | .value, t => startValue? r.frames t
  | .valueOrClose, .mark .closeArray =>
    match r.frames with
    | .array _ :: frames => some ⟨frames, .separator (.array [])⟩
    | _ => none
  | .valueOrClose, t => startValue? r.frames t
  | .keyOrClose, .string key => some ⟨r.frames, .colon [] key⟩
  | .keyOrClose, .mark .closeObject => some ⟨r.frames, .separator (.object [])⟩
  | .key fields, .string key => some ⟨r.frames, .colon fields key⟩
  | .colon fields key, .mark .colon => some ⟨.object fields key :: r.frames, .value⟩
  | .separator value, .mark m => separate? r.frames value m
  | _, _ => none

def result? (r : Reader) : Option Document :=
  match r.frames, r.expected with
  | [], .separator value => some value
  | _, _ => none

end Reader

def read? (s : String) : Option Document := do
  (← (← Json.tokens? s.toList).foldlM Reader.step? ⟨[], .value⟩).result?

/-! ### Values -/

mutual

/-- The value of a document, if all its strings are texts. A repeated key keeps its first place and
its last value. -/
def value? : Document → Option Json
  | null => some .null
  | bool b => some (.bool b)
  | number n => some (.number n)
  | string s => s.map .string
  | array items => (itemValues? items).map .array
  | object fields => (fieldValues? fields).map fun pairs => .object (Fields.collect pairs)

def itemValues? : List Document → Option (List Json)
  | [] => some []
  | d :: rest => do return (← value? d) :: (← itemValues? rest)

def fieldValues? : List (Option String × Document) → Option (List (String × Json))
  | [] => some []
  | (key, d) :: rest => do return (← key, ← value? d) :: (← fieldValues? rest)

end

end Document

def Json.read? (s : String) : Option Json := (Document.read? s).bind Document.value?

end Reshape
