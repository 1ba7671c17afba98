import Reshape.Arguments
import Reshape.CompileError
import Reshape.Text.Split

/-!
Paths: steps divided by dots. A step is a key, or a lookup between angle brackets with its
arguments, as in `users.<find:id=7>.name`. A bracket opens a lookup at the front of a step only, and
inside the brackets a dot divides nothing.
-/

namespace Reshape.Path

inductive Form where
  | key (text : String)
  | call (name : String) (arguments : Arguments)
  deriving DecidableEq, Repr

/-- A step as it is written, and what it says. -/
structure Step where
  raw : String
  form : Form
  deriving DecidableEq, Repr

/-! ### Division into steps -/

/-- Where in a step a character stands. -/
inductive Place where
  | front
  | inside
  | outside
  deriving DecidableEq, Repr

/-- The texts of the steps; there is always one, which may be empty. -/
def divide : Place → List Char → List (List Char)
  | _, [] => [[]]
  | .inside, c :: cs =>
    Text.pushFirst c (if c = '>' then divide .outside cs else divide .inside cs)
  | place, c :: cs =>
    if c = '.' then [] :: divide .front cs
    else if c = '<' ∧ place = .front then Text.pushFirst c (divide .inside cs)
    else Text.pushFirst c (divide .outside cs)

theorem divide_inside_cons (c : Char) (cs : List Char) :
    divide .inside (c :: cs) =
      Text.pushFirst c (if c = '>' then divide .outside cs else divide .inside cs) := by
  rw [divide]

theorem divide_dot {place : Place} (free : place ≠ .inside) (cs : List Char) :
    divide place ('.' :: cs) = [] :: divide .front cs := by
  rw [divide, if_pos rfl]
  exact free

theorem divide_opening (cs : List Char) :
    divide .front ('<' :: cs) = Text.pushFirst '<' (divide .inside cs) := by
  simp [divide]

theorem divide_other {place : Place} {c : Char} (free : place ≠ .inside) (other : c ≠ '.')
    (noLookup : c = '<' → place ≠ .front) (cs : List Char) :
    divide place (c :: cs) = Text.pushFirst c (divide .outside cs) := by
  rw [divide, if_neg other, if_neg fun both => noLookup both.1 both.2]
  exact free

/-! ### One step -/

/-- The text up to the closing bracket, and the text after it. -/
def takeBody : List Char → Except PathFault (List Char × List Char)
  | [] => .error .unterminatedLookup
  | c :: cs =>
    if c = '>' then .ok ([], cs)
    else if c = '<' then .error .nestedBracket
    else (takeBody cs).map fun (body, rest) => (c :: body, rest)

def addArgument (a : Arguments) (text : List Char) : Except PathFault Arguments :=
  match Text.cut '=' text with
  | ([], some _) => .error (.unnamedArgument (String.ofList text))
  | (name, some value) => .ok (a.withNamed (String.ofList name) (String.ofList value))
  | (text, none) => .ok { a with positional := a.positional ++ [String.ofList text] }

def readCall (body : List Char) : Except PathFault Form :=
  match Text.cut ':' body with
  | ([], _) => .error .emptyLookupName
  | (name, none) => .ok (.call (String.ofList name) {})
  | (name, some list) => do
    return .call (String.ofList name) (← (Text.split ',' list).foldlM addArgument {})

def readStep (text : List Char) : Except PathFault Step :=
  match text with
  | [] => .error .emptyStep
  | '<' :: cs => do
    let (body, rest) ← takeBody cs
    let form ← readCall body
    let raw := String.ofList ('<' :: body ++ ['>'])
    match rest with
    | [] => return ⟨raw, form⟩
    | c :: _ => .error (.trailingText c raw)
  | text => .ok ⟨String.ofList text, .key (String.ofList text)⟩

/-! ### Paths -/

/-- The steps of a text, or the fault of the first step that has one. -/
def readSteps (text : List Char) : Except PathFault (List Step) :=
  (divide .front text).mapM readStep

def read (source : String) : Except CompileError (List Step) :=
  if source.isEmpty then .error .emptyExpression
  else (readSteps source.toList).mapError (.invalidExpression source)

def join (steps : List Step) : String := ".".intercalate (steps.map Step.raw)

end Reshape.Path
