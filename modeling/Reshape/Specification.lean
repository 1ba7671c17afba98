import Reshape.Json.Document
import Reshape.Mapper
import Reshape.Template.Json

/-!
Mapper specifications: a template in JSON form together with its options, as they are stored in
files. An absent default and a default of null are told apart.
-/

namespace Reshape

structure Specification where
  failMode : FailMode := .fail
  fallback : Option Json := none
  optimize : Bool := true
  config : Json

namespace Specification

/-! ### Reading -/

/-- Reads a fail mode: its name, or an object with its name as the only key and null under it. -/
def readFailMode? : Document → Option FailMode
  | .string (some name) => FailMode.ofName? name
  | .object [(some name, .null)] => FailMode.ofName? name
  | _ => none

def readBool? : Document → Option Bool
  | .bool b => some b
  | _ => none

/-- The fields read so far, each at most once. -/
structure Draft where
  failMode : Option FailMode := none
  fallback : Option Json := none
  optimize : Option Bool := none
  config : Option Json := none

/-- Takes a value that was not there before. -/
def once? {α : Type} (before : Option α) (read : Option α) : Option (Option α) :=
  match before with
  | none => read.map some
  | some _ => none

/-- Takes one field; those of unknown names are skipped, whatever they hold. -/
def Draft.take? (draft : Draft) : Option String × Document → Option Draft
  | (none, _) => none
  | (some key, d) =>
    if key = "fail_mode" then
      (once? draft.failMode (readFailMode? d)).map fun failMode => { draft with failMode }
    else if key = "default" then
      (once? draft.fallback d.value?).map fun fallback => { draft with fallback }
    else if key = "optimize" then
      (once? draft.optimize (readBool? d)).map fun optimize => { draft with optimize }
    else if key = "config" then
      (once? draft.config d.value?).map fun config => { draft with config }
    else some draft

/-- The specification, once there is a template. -/
def Draft.spec? (draft : Draft) : Option Specification :=
  draft.config.map fun config =>
    ⟨draft.failMode.getD .fail, draft.fallback, draft.optimize.getD true, config⟩

/-- Reads a specification: an object, or an array of all four values in order. -/
def ofDocument? : Document → Option Specification
  | .object fields => do (← fields.foldlM Draft.take? {}).spec?
  | .array [failMode, fallback, optimize, config] => do
    return {
      failMode := ← readFailMode? failMode
      fallback := some (← fallback.value?)
      optimize := ← readBool? optimize
      config := ← config.value? }
  | _ => none

/-- Reads a specification that is the whole text. -/
def read? (s : String) : Option Specification := (Document.read? s).bind ofDocument?

/-! ### Writing -/

/-- The specification as JSON; an absent default is left out. -/
def toJson (s : Specification) : Json :=
  .object ([("fail_mode", .string s.failMode.name)] ++
    (match s.fallback with
      | none => []
      | some v => [("default", v)]) ++
    [("optimize", .bool s.optimize), ("config", s.config)])

/-! ### Compilation -/

def options (s : Specification) (registry : Registry) : Options :=
  ⟨s.fallback, s.failMode, registry, s.optimize⟩

def compile (s : Specification) (registry : Registry) : Except CompileError Mapper := do
  Mapper.compile (← Template.ofJson s.config) (s.options registry)

end Specification

end Reshape
