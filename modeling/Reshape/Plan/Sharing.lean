import Reshape.Plan.Basic

/-!
Sharing: chains reuse a prefix that an earlier chain on the same data has evaluated for certain.
Every mapping opens a scope of its own. A list's root belongs to the scope around it and its
template does not; what a sequence adds ends with it, because a skipped element leaves the later
ones unevaluated.
-/

namespace Reshape.Plan

/-- The prefixes that are evaluated for certain, and what was done so far. -/
structure Sharing where
  seen : List String := []
  scopes : Nat := 0
  reuses : Nat := 0
  deriving DecidableEq, Repr

namespace Sharing

/-- Goes into a mapping, whose data nothing is known of. -/
def enterScope (s : Sharing) : Sharing := { s with seen := [], scopes := s.scopes + 1 }

/-- Comes back to where the prefixes `seen` are known. -/
def leave (s : Sharing) (seen : List String) : Sharing := { s with seen }

/-- Lets a chain take its shortest known prefix from the table; then all its prefixes are known. -/
def shareChain (s : Sharing) (c : Chain) : Chain × Sharing :=
  let prefixes := c.prefixes
  match prefixes.findIdx? (s.seen.contains ·) with
  | some depth => (c.reuse depth, { s with seen := s.seen ++ prefixes, reuses := s.reuses + 1 })
  | none => (c, { s with seen := s.seen ++ prefixes })

mutual

def shareNode (s : Sharing) : Node → Node × Sharing
  | .constant v => (.constant v, s)
  | .expression c =>
    let (c, s) := s.shareChain c
    (.expression c, s)
  | .nested entries =>
    let (entries, inner) := shareEntries s.enterScope entries
    (.nested entries, inner.leave s.seen)
  | .list root entries =>
    let (root, s) := s.shareChain root
    let (entries, inner) := shareEntries s.enterScope entries
    (.list root entries, inner.leave s.seen)
  | .sequence items =>
    let (items, inner) := shareItems s items
    (.sequence items, inner.leave s.seen)

def shareEntries (s : Sharing) : List (String × Node) → List (String × Node) × Sharing
  | [] => ([], s)
  | (key, node) :: rest =>
    let (node, s) := shareNode s node
    let (rest, s) := shareEntries s rest
    ((key, node) :: rest, s)

def shareItems (s : Sharing) : List Node → List Node × Sharing
  | [] => ([], s)
  | node :: rest =>
    let (node, s) := shareNode s node
    let (rest, s) := shareItems s rest
    (node :: rest, s)

end

end Sharing

/-- The plan with its prefixes shared, and what was done. -/
def share (p : Plan) : Plan × Sharing := Sharing.shareEntries (Sharing.enterScope {}) p

end Reshape.Plan
