import Reshape.Lookup.Basic

/-!
Registries: which lookup a name in a path stands for. The entry without a name makes the lookups of
bare keys. Registering under a name again replaces what stood there.
-/

namespace Reshape

/-- Makes a lookup of the arguments of one step. -/
abbrev LookupMaker := Arguments → Except CompileError Lookup

structure Registry where
  name : String
  entries : List (Option String × LookupMaker)

namespace Registry

def empty (name : String) : Registry := ⟨name, []⟩

/-- Stores a constructor under a name, in place of an earlier one. -/
def register (r : Registry) (name : Option String) (make : LookupMaker) : Registry :=
  { r with entries := Fields.insert name make r.entries }

/-- The built-in lookups: the bare key, `find`, `as_type` and `arith`. -/
def builtins (name : String) : Registry :=
  (empty name)
    |>.register none (fun a => .key <$> Key.ofArguments a)
    |>.register (some "find") (fun a => .find <$> Find.ofArguments a)
    |>.register (some "as_type") (fun a => .cast <$> Cast.ofArguments a)
    |>.register (some "arith") (fun a => .arith <$> Arithmetic.ofArguments a)

def standard : Registry := builtins "pathmap.registry"

def contains (r : Registry) (name : Option String) : Bool := (r.entries.lookup name).isSome

/-- The registered names in ascending order; bare keys have none. -/
def names (r : Registry) : List String :=
  (r.entries.foldl
    (fun sorted entry =>
      match entry.1 with
      | none => sorted
      | some name => Fields.insertSorted name () sorted)
    []).map Prod.fst

def resolve (r : Registry) (name : Option String) : Except CompileError LookupMaker :=
  match r.entries.lookup name with
  | some make => .ok make
  | none => .error (.unknownLookup name r.name r.names)

def construct (r : Registry) (name : Option String) (a : Arguments) :
    Except CompileError Lookup := do
  (← r.resolve name) a

/-- The text that shows a registry in diagnostics. -/
def summary (r : Registry) : String :=
  let bareKey := if r.contains none then "true" else "false"
  "LookupRegistry \x7b name: " ++ Text.quote r.name ++ ", bare_key: " ++ bareKey ++
    ", lookups: " ++ Text.quoteList r.names ++ " \x7d"

end Registry

end Reshape
