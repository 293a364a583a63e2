import Rigging.Script.Cover

/-!
# Literals

Strings, templates, arrays and objects, and the keys and modifiers that members of objects and
classes share.
-/

namespace Rigging.Script

open Reader

/-- A string. -/
def stringLiteral : Reader (List Piece) := fun c =>
  let t := c.toLexeme
  match t.rest with
  | q :: more =>
    if q = '"' || q = '\'' then
      match stringPieces q t.bound more with
      | some (pieces, length) => (some pieces, t.skip (length + 1))
      | none => (none, c.refuseAt t.position)
    else (none, c.refuseAt t.position)
  | [] => (none, c.refuseAt t.position)

/-- Exactly these characters, without white space in front. -/
def adjacentText (s : String) : Reader Unit := do
  let cs := s.toList
  let _ ← adjacent fun rest => if cs.isPrefixOf rest then cs.length else 0

/-- One part of a template: text, an escape, or a substitution. -/
def templatePart (r : Rules) : Reader Unit :=
  choice [
    (do let _ ← adjacent templateTextLength),
    (do
      adjacentText "\\"
      let _ ← adjacent escapeLength),
    (do
      adjacentText "$\x7b"
      let _ ← expressions r false
      mark "\x7d")]

/-- A template. -/
def template (r : Rules) : Reader Unit := do
  let _ ← lexeme fun rest => if rest.head? = some '`' then 1 else 0
  let _ ← many (templatePart r)
  adjacentText "`"

/-- An array, or a pattern of that form. -/
def arrayLiteral (r : Rules) : Reader Cover := do
  mark "["
  let s ← slots r
  mark "]"
  return ⟨.other .array, s.areValues, s.areElements, s.areElements⟩

/-- The key of a member: a word, a string, a number, a computed or a private name. -/
def key (r : Rules) : Reader Key :=
  choice [
    (do return .name (← word)),
    (do return .string (← stringLiteral)),
    (do
      let _ ← lexeme numberLength
      return .other),
    (do
      mark "["
      let _ ← valueOf (r.expression false)
      mark "]"
      return .other),
    (do
      let _ ← privateName
      return .other)]

/-- Whether a key can start at the head of the text. -/
def startsKey (cs : List Char) : Bool :=
  match cs with
  | c :: _ => c == '"' || c == '\'' || c == '[' || c == '#' || wordLength cs != 0 ||
      numberLength cs != 0
  | [] => false

/-- A word in front of a key.  Where fields are allowed, a line end behind the word makes it a
key itself. -/
def modifier (fields star : Bool) (w : String) : Reader Unit := do
  keyword w
  let ended ← atEnd true
  let cs ← peek
  ensure ((startsKey cs || (star && punctuatorAt cs == ['*'])) && !(fields && ended))

/-- The modifiers of a member. -/
structure Modifiers where
  static : Bool
  async : Bool
  special : Bool

/-- Reads the modifiers of a member. -/
def modifiers (fields : Bool) : Reader Modifiers := do
  let static ← taken (modifier fields true "static")
  let async ← taken (modifier fields true "async")
  let special ← taken (modifier fields false "get" <|> modifier fields false "set" <|> mark "*")
  return ⟨static, async, special⟩

/-- Properties behind a decorator's name. -/
def decoratorPath : Reader Unit := do
  let _ ← name
  let _ ← many (do
    mark "."
    let _ ← word)

/-- A decorator. -/
def decorator (r : Rules) : Reader Unit := do
  mark "@"
  decoratorPath
  let _ ← optional (arguments r)

/-- A member of an object with its possible readings, as part of a value and of a pattern. -/
structure Member where
  item : Item
  value : Bool
  pattern : Bool

/-- Three dots and an expression. -/
def spreadMember (r : Rules) : Reader Member := do
  mark "..."
  let c ← r.expression false
  return ⟨.spread, c.value, c.pattern⟩

/-- What follows a key that stands alone: a value, a default, or nothing. -/
def plainMember (r : Rules) (k : Key) : Reader Member :=
  (do
    mark ":"
    let c ← r.expression false
    return ⟨.pair k c.expr, c.value, c.element⟩) <|>
  (match k with
  | .name text =>
    (do
      mark "="
      let _ ← valueOf (r.expression false)
      return ⟨.shorthand text, false, true⟩) <|>
    return ⟨.shorthand text, true, true⟩
  | _ => refuse)

/-- A method behind its key. -/
def methodMember (r : Rules) (k : Key) (async : Bool) : Reader Member := do
  let ps ← parameters r
  block r
  return ⟨.method k async ps, true, false⟩

/-- A member that has a key. -/
def keyedMember (r : Rules) : Reader Member := do
  let decorators ← many (decorator r)
  let m ← modifiers false
  let k ← key r
  let method := methodMember r k m.async
  if m.static || m.async || m.special || !decorators.isEmpty then method
  else method <|> plainMember r k

/-- Comments as items of an object. -/
def gapItems (found : List Gap) : List Item :=
  found.map fun g =>
    match g with
    | .comment text => .comment text
    | .htmlComment => .htmlComment

/-- What stands between two commas of an object: comments around at most one member. -/
def objectPart (r : Rules) : Reader (List Item × Bool × Bool) := do
  let before ← passGaps
  let m ← optional (spreadMember r <|> keyedMember r)
  let after ← passPlainGaps
  match m with
  | some m => return (gapItems before ++ m.item :: gapItems after, m.value, m.pattern)
  | none => return (gapItems (before ++ after), true, true)

/-- An object, or a pattern of that form. -/
def objectLiteral (r : Rules) : Reader Cover := do
  mark "\x7b"
  let first ← objectPart r
  let more ← many (do
    mark ","
    objectPart r)
  mark "\x7d"
  let parts := first :: more
  let pattern := parts.all fun p => p.2.2
  return ⟨.object (parts.flatMap fun p => p.1), parts.all fun p => p.2.1, pattern, pattern⟩

end Rigging.Script
