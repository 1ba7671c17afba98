import Reshape.Table

/-!
What the operations on a prefix table do to the entries it holds.
-/

namespace Reshape.Table

theorem contains_iff {t : Table} {path : String} :
    t.contains path ↔ ∃ outcome, t.find? path = some outcome := by
  rw [contains, Option.isSome_iff_exists]

theorem get_of_find? {t : Table} {path : String} {outcome : Except LookupError Json}
    (found : t.find? path = some outcome) :
    t.get path = (some outcome, { t with reads := t.reads + 1 }) := by
  rw [get, found]

theorem get_of_absent {t : Table} {path : String} (absent : t.find? path = none) :
    t.get path = (none, t) := by
  rw [get, absent]

theorem find?_insert (t : Table) (path other : String) (outcome : Except LookupError Json) :
    (t.insert path outcome).find? other = if other = path then some outcome else t.find? other := by
  split
  · rename_i same
    rw [same, find?_insert_self]
  · rename_i different
    rw [find?_insert_of_ne t different]

theorem contains_insert {t : Table} {other : String} (held : t.contains other) (path : String)
    (outcome : Except LookupError Json) : (t.insert path outcome).contains other := by
  rw [contains, find?_insert]
  split
  · rfl
  · exact held

end Reshape.Table
