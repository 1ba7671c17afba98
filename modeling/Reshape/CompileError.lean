import Reshape.Json.Printer
import Reshape.FailMode

/-!
Failures of compilation. Each constructor is a cause; `CompileError.message` has the wording.
-/

namespace Reshape

/-- Why a text is no path. -/
inductive PathFault where
  | emptyStep
  | unterminatedLookup
  | nestedBracket
  | emptyLookupName
  | unnamedArgument (argument : String)
  | trailingText (character : Char) (step : String)
  deriving DecidableEq, Repr

def PathFault.message : PathFault → String
  | emptyStep => "empty step"
  | unterminatedLookup => "unterminated lookup"
  | nestedBracket => "nested `<` inside lookup"
  | emptyLookupName => "empty lookup name"
  | unnamedArgument argument => s!"named argument `{argument}` has no name"
  | trailingText character step => s!"unexpected character `{character}` after `{step}`"

/-- Why a lookup cannot be made of its arguments. -/
inductive ArgumentFault where
  | notOneKey
  | positionalConditions (given : List String)
  | notOneType
  | unknownArgument (name : String)
  | tooManyPositional (count : Nat)
  | givenTwice (name : String)
  | missingOperator
  | missingOperand
  | invalidReverseFlag (flag : String)
  | operandNotANumber (operand : String)
  deriving DecidableEq, Repr

namespace ArgumentFault

def lookup : ArgumentFault → String
  | notOneKey => "key"
  | positionalConditions _ => "find"
  | notOneType => "as_type"
  | _ => "arith"

def message : ArgumentFault → String
  | notOneKey => "expected exactly one positional key"
  | positionalConditions given =>
    "conditions must be `key=value` pairs, got positional " ++ Text.quoteList given
  | notOneType => "expected exactly one type name"
  | unknownArgument name => s!"unknown argument `{name}`"
  | tooManyPositional count => s!"expected at most 3 positional arguments, got {count}"
  | givenTwice name => s!"`{name}` given twice"
  | missingOperator => "missing operator"
  | missingOperand => "missing operand"
  | invalidReverseFlag flag => s!"`{flag}` is not a valid reverse flag"
  | operandNotANumber operand => s!"operand `{operand}` is not a number"

end ArgumentFault

/-- One step down into a template. -/
inductive Segment where
  | entry (key : String)
  | element (index : Nat)
  | listRoot
  | listTemplate
  /-- The body of a list in a template's JSON form. -/
  | listBody
  deriving DecidableEq, Repr

def Segment.text : Segment → String
  | entry key => "." ++ key
  | element index => s!"[{index}]"
  | listRoot => ".root"
  | listTemplate => ".template"
  | listBody => ".$list"

/-- Where a node stands in a template, from the top down. -/
abbrev TemplatePath := List Segment

def TemplatePath.text (path : TemplatePath) : String :=
  "$" ++ "".intercalate (path.map Segment.text)

/-- What kind of template it is, as diagnostics name it. -/
inductive TemplateKind where
  | expression
  | chain
  | constant
  | mapping
  | list
  | sequence
  deriving DecidableEq, Repr

def TemplateKind.name : TemplateKind → String
  | expression => "expression"
  | chain => "chain"
  | constant => "constant"
  | mapping => "mapping"
  | list => "list template"
  | sequence => "sequence"

/-- Why a template, or its JSON form, is malformed. -/
inductive TemplateFault where
  | topNotAMapping
  | listTemplateNotAMapping
  | memoizedChain
  | notAnExpression (found : TemplateKind)
  | bareValue (value : Json)
  | listBodyNotAnObject
  | unknownListField (field : String)
  | listRootNotAString
  | listTemplateNotAnObject

def TemplateFault.message : TemplateFault → String
  | topNotAMapping => "top-level template must be a mapping"
  | listTemplateNotAMapping => "list template must be a mapping"
  | memoizedChain => "precompiled chain must not contain memoized steps"
  | notAnExpression found => s!"expected an expression, found {found.name}"
  | bareValue value =>
    "bare " ++ value.text ++ " is not an expression; wrap constants as \x7b\"$value\": ...\x7d"
  | listBodyNotAnObject => "list template must be an object with `root` and `template`"
  | unknownListField field => s!"unknown list template field `{field}`"
  | listRootNotAString => "list root must be an expression string"
  | listTemplateNotAnObject => "list template body must be an object"

inductive CompileError where
  | emptyExpression
  | invalidExpression (source : String) (fault : PathFault)
  /-- No constructor stands under this name, or none for bare keys where there is no name. -/
  | unknownLookup (name : Option String) (registry : String) (registered : List String)
  | invalidArguments (fault : ArgumentFault)
  | unknownType (name : String)
  | unknownOperator (symbol : String)
  | invalidTemplate (path : TemplatePath) (fault : TemplateFault)
  | invalidFailMode (text : String)

def CompileError.message : CompileError → String
  | emptyExpression => "empty expression"
  | invalidExpression source fault => s!"invalid expression `{source}`: {fault.message}"
  | unknownLookup name registry registered =>
    let name := name.getD "<bare key>"
    let registered := ", ".intercalate registered
    s!"`{name}` lookup is not registered in `{registry}`; registered lookups are [{registered}]"
  | invalidArguments fault => s!"invalid arguments for `{fault.lookup}` lookup: {fault.message}"
  | unknownType name => s!"unsupported type `{name}` (expected one of int, float, decimal, bool)"
  | unknownOperator symbol => s!"unsupported arithmetic operator `{symbol}`"
  | invalidTemplate path fault => s!"invalid template at `{path.text}`: {fault.message}"
  | invalidFailMode text => s!"invalid fail mode `{text}` (expected fail, default or skip)"

def FailMode.read (s : String) : Except CompileError FailMode :=
  match read? s with
  | some mode => .ok mode
  | none => .error (.invalidFailMode s)

end Reshape
