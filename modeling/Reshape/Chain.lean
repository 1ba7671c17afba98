import Reshape.Path
import Reshape.Registry

/-!
Chains: compiled paths. A chain looks every prefix up in the table before it runs the step that
completes it, and stores what the step gave, failures included; only then does its fail mode decide.
-/

namespace Reshape

/-- What a chain gives: a value, or nothing because a step failed and the chain skips. -/
inductive Outcome where
  | value (v : Json)
  | skipped

/-- A lookup with the text that stands for it in prefixes. -/
structure Step where
  raw : String
  lookup : Lookup

def Step.isMemo (s : Step) : Bool := s.lookup.isMemo

def Step.memo (path : String) : Step := ⟨path, .memo path⟩

/-- The prefix that a step completes: its text after the prefix before it, with a dot between. -/
def extendPrefix (path raw : String) : String := if path.isEmpty then raw else path ++ "." ++ raw

/-- What every chain of a template inherits. -/
structure Options where
  fallback : Option Json := none
  failMode : FailMode := .fail
  registry : Registry := .standard
  /-- Whether chains reuse the prefixes that earlier ones have evaluated. -/
  optimize : Bool := true

structure Chain where
  source : String
  steps : List Step
  /-- The default, which may be null. -/
  fallback : Option Json
  failMode : FailMode
  registry : String

namespace Chain

/-! ### Compilation -/

/-- The lookup of a step. A bare key is the only argument of the entry without a name. -/
def compileStep (r : Registry) (step : Path.Step) : Except CompileError Step := do
  let lookup ← match step.form with
    | .key text => r.construct none { positional := [text] }
    | .call name a => r.construct (some name) a
  return ⟨step.raw, lookup⟩

def compile (source : String) (options : Options) : Except CompileError Chain := do
  let steps ← (← Path.read source).mapM (compileStep options.registry)
  return ⟨source, steps, options.fallback, options.failMode, options.registry.name⟩

/-! ### Prefixes -/

def hasMemo (c : Chain) : Bool := c.steps.any Step.isMemo

/-- The prefixes that steps complete, after the prefix before them. -/
def prefixesFrom (path : String) : List Step → List String
  | [] => []
  | step :: rest =>
    let path := extendPrefix path step.raw
    path :: prefixesFrom path rest

def prefixes (c : Chain) : List String := prefixesFrom "" c.steps

/-- Replaces the steps up to number `depth` by one that takes their prefix from the table. The step
of that number goes too. -/
def reuse (c : Chain) (depth : Nat) : Chain :=
  match c.prefixes[depth]? with
  | some path => { c with steps := Step.memo path :: c.steps.drop (depth + 1) }
  | none => c

/-! ### Evaluation -/

/-- The outcome of the prefix that a step completes: from the table, or by running the step and
storing what it gives. A missing memo is not stored. -/
def runStep (scope : Scope) (step : Step) (path : String) (node : Json) (t : Table) :
    Except LookupError Json × Table :=
  match t.get path with
  | (some outcome, t) => (outcome, t)
  | (none, t) =>
    match step.lookup.evaluate scope node t with
    | (.error (.missingMemo key), t) => (.error (.missingMemo key), t)
    | (outcome, t) => (outcome, t.insert path outcome)

/-- Runs steps in turn; a failure comes with the text of its step. -/
def runSteps (scope : Scope) : List Step → String → Json → Table →
    Except (String × LookupError) Json × Table
  | [], _, node, t => (.ok node, t)
  | step :: rest, path, node, t =>
    let path := extendPrefix path step.raw
    match runStep scope step path node t with
    | (.ok node, t) => runSteps scope rest path node t
    | (.error cause, t) => (.error (step.raw, cause), t)

/-- What the fail mode makes of a failed step. A missing memo is never recovered from. -/
def onFailure (c : Chain) (step : String) (cause : LookupError) : Except EvalError Outcome :=
  match cause, c.failMode, c.fallback with
  | .missingMemo key, _, _ => .error (.missingMemo key)
  | _, .skip, _ => .ok .skipped
  | _, .default, some v => .ok (.value v)
  | cause, _, _ => .error (.lookup c.source step cause)

/-- Evaluates the chain on data; the table comes back also after an error. -/
def evaluate (c : Chain) (scope : Scope) (data : Json) (t : Table) :
    Except EvalError Outcome × Table :=
  match runSteps scope c.steps "" data t with
  | (.ok v, t) => (.ok (.value v), t)
  | (.error (step, cause), t) => (c.onFailure step cause, t)

/-- Evaluates the chain with a table of its own. Prefixes hold for one piece of data, so a chain
that runs inside a lookup must not share the table around it. -/
def evaluateAlone (c : Chain) (scope : Scope) (data : Json) : Except EvalError Outcome :=
  (c.evaluate scope data .empty).1

end Chain

end Reshape
