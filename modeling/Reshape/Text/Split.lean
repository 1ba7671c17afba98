/-!
Cutting a text at a separator.
-/

namespace Reshape.Text

/-- The text before the first separator and, if there is one, the text after it. -/
def cut (separator : Char) : List Char → List Char × Option (List Char)
  | [] => ([], none)
  | c :: cs =>
    if c = separator then ([], some cs)
    else
      let (before, after) := cut separator cs
      (c :: before, after)

/-- Puts a character before the first piece. -/
def pushFirst (c : Char) : List (List Char) → List (List Char)
  | [] => [[c]]
  | piece :: rest => (c :: piece) :: rest

/-- All pieces between the separators; there is always one, which may be empty. -/
def split (separator : Char) : List Char → List (List Char)
  | [] => [[]]
  | c :: cs => if c = separator then [] :: split separator cs else pushFirst c (split separator cs)

end Reshape.Text
