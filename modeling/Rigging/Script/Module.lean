import Rigging.Script.Statement

/-!
# Whole scripts

`read` takes the text of a module to its statements, or to the line of the lexeme that does not
belong where it stands.
-/

namespace Rigging.Script

/-- The readers with a bound on how deep they refer to each other. -/
def rules : Nat → Rules
  | 0 =>
    { expression := fun _ => Reader.refuse
      operand := fun _ => Reader.refuse
      newTarget := Reader.refuse
      statement := Reader.refuse
      element := Reader.refuse }
  | n + 1 =>
    { expression := fun ends c => expression (rules n) ends c
      operand := fun ends c => operand (rules n) ends c
      newTarget := fun c => newTarget (rules n) c
      statement := fun c => statement (rules n) c
      element := fun c => element (rules n) c }

/-- The length of a first line that names an interpreter. -/
def interpreterLength (cs : List Char) : Nat :=
  if "#!".toList.isPrefixOf cs then (cs.takeWhile (· != '\n')).length else 0

/-- The end of a text. -/
def endOfText : Reader Unit := do
  let _ ← Reader.passGaps
  let cs ← Reader.peekRaw
  Reader.ensure cs.isEmpty

/-- A whole module. -/
def statements (r : Rules) : Reader (List Statement) := do
  let found ← Reader.many r.statement
  endOfText
  return found

/-- The line of a position in a text, counted from one. -/
def lineAt (cs : List Char) (position : Nat) : Nat :=
  (cs.take position).count '\n' + 1

/-- Reads a module.  A step from one rule to the next that reads nothing is followed by one that
does, within four steps, so four times the length bounds the depth. -/
def read (text : String) : Except Nat (List Statement) :=
  let cs := text.toList
  let start := (Cursor.start cs).skip (interpreterLength cs)
  match statements (rules (4 * cs.length + 8)) start with
  | (some found, _) => .ok found
  | (none, c) => .error (lineAt cs c.reach)

end Rigging.Script
