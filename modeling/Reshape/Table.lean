import Reshape.Fields
import Reshape.Lookup.Error

/-!
Prefix tables: the outcome of every prefix of a path that was evaluated on one piece of data.
Failures are kept as well, so a chain that reuses a prefix meets the error that it would have met
itself.
-/

namespace Reshape

/-- Counters of one table, or the sums of several. -/
structure Stats where
  reads : Nat := 0
  writes : Nat := 0
  entries : Nat := 0
  deriving DecidableEq, Repr

def Stats.add (a b : Stats) : Stats where
  reads := a.reads + b.reads
  writes := a.writes + b.writes
  entries := a.entries + b.entries

structure Table where
  entries : List (String × Except LookupError Json) := []
  reads : Nat := 0
  writes : Nat := 0

namespace Table

def empty : Table := {}

/-- What is stored under a prefix. -/
def find? (t : Table) (path : String) : Option (Except LookupError Json) := t.entries.lookup path

def contains (t : Table) (path : String) : Bool := (t.find? path).isSome

/-- What is stored under a prefix; a hit counts as one read. -/
def get (t : Table) (path : String) : Option (Except LookupError Json) × Table :=
  match t.find? path with
  | some outcome => (some outcome, { t with reads := t.reads + 1 })
  | none => (none, t)

def insert (t : Table) (path : String) (outcome : Except LookupError Json) : Table :=
  { t with entries := Fields.insert path outcome t.entries, writes := t.writes + 1 }

/-- As `get`, but a miss is an error. -/
def fetch (t : Table) (path : String) : Except LookupError Json × Table :=
  match t.get path with
  | (some outcome, t) => (outcome, t)
  | (none, t) => (.error (.missingMemo path), t)

def size (t : Table) : Nat := t.entries.length

def stats (t : Table) : Stats := ⟨t.reads, t.writes, t.size⟩

theorem find?_insert_self (t : Table) (path : String) (outcome : Except LookupError Json) :
    (t.insert path outcome).find? path = some outcome :=
  Fields.lookup_insert_self path outcome t.entries

theorem find?_insert_of_ne (t : Table) {path other : String} (different : other ≠ path)
    (outcome : Except LookupError Json) : (t.insert path outcome).find? other = t.find? other :=
  Fields.lookup_insert_of_ne different outcome t.entries

end Table

end Reshape
