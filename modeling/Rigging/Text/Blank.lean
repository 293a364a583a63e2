/-!
# Blank characters

A character is *blank* when Unicode calls it white space or when it is one of the four information
separators.  Blanks divide words and are cut from both ends of a text; the zero-width space and the byte
order mark are not blank.  Everything here works on lists of characters, with a wrapper for
`String` where the callers hold one.
-/

namespace Rigging.Text

/-- The blank characters: tab to carriage return, the separators `U+001C` to `U+001F`, the space,
the next-line control, and the Unicode space, line and paragraph separators. -/
def isBlank (c : Char) : Bool :=
  let n := c.toNat
  (0x09 ≤ n && n ≤ 0x0D) || (0x1C ≤ n && n ≤ 0x20) || n == 0x85 || n == 0xA0 || n == 0x1680 ||
    (0x2000 ≤ n && n ≤ 0x200A) || n == 0x2028 || n == 0x2029 || n == 0x202F || n == 0x205F ||
    n == 0x3000

/-- A space or a tab: the blanks that keep a text on its line. -/
def isSpaceOrTab (c : Char) : Bool :=
  c == ' ' || c == '\t'

/-- `cs` without the blanks at its start. -/
def dropBlanks (cs : List Char) : List Char :=
  cs.dropWhile isBlank

/-- `cs` without the blanks at its end. -/
def dropBlanksEnd (cs : List Char) : List Char :=
  (cs.reverse.dropWhile isBlank).reverse

/-- `cs` without the blanks at either end. -/
def trimChars (cs : List Char) : List Char :=
  dropBlanksEnd (dropBlanks cs)

/-- A text without the blanks at either end. -/
def trim (s : String) : String :=
  String.ofList (trimChars s.toList)

/-- The trimmed text, or nothing when only blanks are left of it. -/
def trimmed? (cs : List Char) : Option String :=
  let t := trimChars cs
  if t.isEmpty then none else some (String.ofList t)

theorem length_dropBlanks_le (cs : List Char) : (dropBlanks cs).length ≤ cs.length :=
  (List.dropWhile_suffix isBlank).length_le

theorem length_dropBlanksEnd_le (cs : List Char) : (dropBlanksEnd cs).length ≤ cs.length := by
  have h := (List.dropWhile_suffix (l := cs.reverse) isBlank).length_le
  simpa [dropBlanksEnd] using h

/-- Trimming never makes a text longer. -/
theorem length_trimChars_le (cs : List Char) : (trimChars cs).length ≤ cs.length :=
  Nat.le_trans (length_dropBlanksEnd_le _) (length_dropBlanks_le cs)

end Rigging.Text
