import Reshape.Text.Blank

/-!
Fail modes: what becomes of a chain one of whose steps fails.
-/

namespace Reshape

inductive FailMode where
  /-- The error is passed on. -/
  | fail
  /-- The chain's default takes the place of the value; without one, as `fail`. -/
  | default
  /-- There is no value, and a mapping leaves its key out. -/
  | skip
  deriving DecidableEq, Repr

namespace FailMode

def name : FailMode → String
  | fail => "fail"
  | default => "default"
  | skip => "skip"

/-- The mode of exactly this name. -/
def ofName? : String → Option FailMode
  | "fail" => some fail
  | "default" => some default
  | "skip" => some skip
  | _ => none

/-- The mode that a keyword names. -/
def read? (s : String) : Option FailMode := ofName? (Text.keyword s)

theorem ofName?_name (m : FailMode) : ofName? m.name = some m := by cases m <;> rfl

end FailMode

end Reshape
