/-!
Blank characters and trimming. Blanks are the characters of Unicode's White_Space property; a
zero-width space is none of them.
-/

namespace Reshape.Text

/-- White_Space: the ASCII blanks, the next-line and no-break spaces, and those from U+1680 on. -/
def isBlank (c : Char) : Bool :=
  let n := c.toNat
  (0x09 ≤ n && n ≤ 0x0D) || n == 0x20 || n == 0x85 || n == 0xA0 || n == 0x1680 ||
    (0x2000 ≤ n && n ≤ 0x200A) || n == 0x2028 || n == 0x2029 || n == 0x202F || n == 0x205F ||
    n == 0x3000

/-- The text without the blanks at its two ends. -/
def trim (s : String) : String :=
  String.ofList ((s.toList.dropWhile isBlank).reverse.dropWhile isBlank).reverse

/-- The text as a keyword is compared: trimmed, with the ASCII letters in lower case. -/
def keyword (s : String) : String := (trim s).map Char.toLower

/-- Switch words, read as keywords. -/
def readSwitch? (s : String) : Option Bool :=
  match keyword s with
  | "1" | "true" | "yes" | "on" => some true
  | "0" | "false" | "no" | "off" => some false
  | _ => none

end Reshape.Text
