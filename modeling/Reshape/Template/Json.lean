import Reshape.Template

/-!
The JSON form of templates: strings are paths, arrays sequences and objects mappings, but for two
markers. `{"$value": v}` is the constant `v`, and `{"$list": {"root": path, "template": mapping}}` a
list.
-/

namespace Reshape.Template

/-- The path of a list's root, in a list body without unknown fields. -/
def listRoot (path : TemplatePath) (body : List (String × Json)) : Except CompileError Template :=
  match body.find? fun field => field.1 != "root" && field.1 != "template" with
  | some field => .error (.invalidTemplate path (.unknownListField field.1))
  | none =>
    match body.lookup "root" with
    | some (.string source) => .ok (.expression source)
    | _ => .error (.invalidTemplate path .listRootNotAString)

mutual

/-- Reads the template at a place in the JSON form. -/
def ofJsonAt (path : TemplatePath) : Json → Except CompileError Template
  | .string source => .ok (.expression source)
  | .array items => .sequence <$> itemsAt path 0 items
  | .object [(key, v)] =>
    if key = "$value" then .ok (.constant v)
    else if key = "$list" then listAt (path ++ [.listBody]) v
    else do return .mapping [(key, ← ofJsonAt (path ++ [.entry key]) v)]
  | .object fields => .mapping <$> entriesAt path fields
  | v => .error (.invalidTemplate path (.bareValue v))

def itemsAt (path : TemplatePath) (index : Nat) : List Json → Except CompileError (List Template)
  | [] => .ok []
  | v :: rest => do
    let item ← ofJsonAt (path ++ [.element index]) v
    return item :: (← itemsAt path (index + 1) rest)

def entriesAt (path : TemplatePath) :
    List (String × Json) → Except CompileError (List (String × Template))
  | [] => .ok []
  | (key, v) :: rest => do
    let entry ← ofJsonAt (path ++ [.entry key]) v
    return (key, entry) :: (← entriesAt path rest)

/-- Reads a list body. -/
def listAt (path : TemplatePath) : Json → Except CompileError Template
  | .object body => do return .list (← listRoot path body) (← listTemplateAt path body)
  | _ => .error (.invalidTemplate path .listBodyNotAnObject)

/-- Reads the template among the fields of a list body. -/
def listTemplateAt (path : TemplatePath) : List (String × Json) → Except CompileError Template
  | [] => .error (.invalidTemplate path .listTemplateNotAnObject)
  | (key, v) :: rest =>
    if key = "template" then
      match v with
      | .object _ => ofJsonAt (path ++ [.listTemplate]) v
      | _ => .error (.invalidTemplate path .listTemplateNotAnObject)
    else listTemplateAt path rest

end

/-- Reads a template in its JSON form. -/
def ofJson (v : Json) : Except CompileError Template := ofJsonAt [] v

end Reshape.Template
