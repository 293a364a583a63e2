import Rigging.Script.Cursor

/-!
# Readings of a text

A list in parentheses is read before it is known whether it holds arguments, parameters or a
grouped expression, and an object or array literal before it is known whether it is a value or a
pattern to assign to.  A `Cover` is an expression together with what it may still turn out to be.

`Rules` are the readers that refer to each other; every other reader takes them as an argument.
-/

namespace Rigging.Script

/-- An expression with its possible readings: as a value, as a pattern that can be assigned to, and
as an element of a pattern, which may also have a default. -/
structure Cover where
  expr : Expr
  value : Bool
  pattern : Bool
  element : Bool

namespace Cover

/-- An expression that is a value and nothing else. -/
def ofValue (expr : Expr) : Cover := ⟨expr, true, false, false⟩

/-- An expression of which only the kind is kept. -/
def ofKind (kind : Kind) : Cover := ofValue (.other kind)

/-- An expression that can also be assigned to. -/
def place (expr : Expr) : Cover := ⟨expr, true, true, true⟩

/-- Whether a plain assignment can have this at its left. -/
def isTarget (c : Cover) : Bool :=
  c.pattern || c.expr.kind == .parenthesized

/-- Whether an assignment with an operator can have this at its left. -/
def isUpdatable (c : Cover) : Bool :=
  [Kind.identifier, .member, .subscript, .parenthesized].contains c.expr.kind

end Cover

/-- An item of a list; `bare` says that no comment stands between three dots and what follows
them. -/
structure Entry where
  cover : Cover
  spread : Bool
  bare : Bool

namespace Entry

/-- Whether the item can stand in a list of values. -/
def isValue (e : Entry) : Bool := e.cover.value

/-- Whether the item can stand in a list of patterns. -/
def isElement (e : Entry) : Bool :=
  if e.spread then e.cover.pattern else e.cover.element

/-- The item as a parameter. -/
def param (e : Entry) : Param :=
  match e.cover.expr with
  | .name text => if e.spread then (if e.bare then .rest text else .other) else .name text
  | _ => .other

end Entry

/-- The places between the commas of a list; an empty place is a hole. -/
abbrev Slots := List (Option Entry)

namespace Slots

/-- Whether every item can stand in a list of values; holes are allowed. -/
def areValues (s : Slots) : Bool :=
  s.all fun e => e.all Entry.isValue

/-- Whether every item can stand in a list of patterns; holes are allowed. -/
def areElements (s : Slots) : Bool :=
  s.all fun e => e.all Entry.isElement

/-- The items, when there is no hole. -/
def filled? (s : Slots) : Option (List Entry) :=
  s.mapM id

/-- The parameters of a list, which may be empty or end with a comma. -/
def params? (s : Slots) : Option (List Param) :=
  let items : Slots := if (s.getLast?.bind id).isNone then s.dropLast else s
  match filled? items with
  | some entries => if entries.all Entry.isElement then some (entries.map Entry.param) else none
  | none => none

/-- Whether the list is a grouped expression: items that are values, no hole and no spread. -/
def isGroup (s : Slots) : Bool :=
  s.all fun e =>
    match e with
    | some entry => entry.isValue && !entry.spread
    | none => false

end Slots

/-- The readers that refer to each other.  The flag of the first two says that a statement can end
behind what they read. -/
structure Rules where
  expression : Bool → Reader Cover
  operand : Bool → Reader Cover
  newTarget : Reader Cover
  statement : Reader Statement
  element : Reader Kind

open Reader

/-- One item of a list. -/
def entry (r : Rules) : Reader Entry :=
  (do
    mark "..."
    let found ← passGaps
    let c ← r.expression false
    return ⟨c, true, found.isEmpty⟩) <|>
  (do
    let c ← r.expression false
    return ⟨c, false, true⟩)

/-- The items of a list up to its closing mark. -/
def slots (r : Rules) : Reader Slots := do
  let first ← optional (entry r)
  let more ← many (do
    mark ","
    optional (entry r))
  return first :: more

/-- A list of arguments. -/
def arguments (r : Rules) : Reader Unit := do
  mark "("
  let s ← slots r
  mark ")"
  ensure s.areValues

/-- A list of parameters. -/
def parameters (r : Rules) : Reader (List Param) := do
  mark "("
  let s ← slots r
  mark ")"
  match s.params? with
  | some ps => return ps
  | none => refuse

/-- A value. -/
def valueOf (p : Reader Cover) : Reader Expr := do
  let c ← p
  ensure c.value
  return c.expr

/-- One or more expressions with commas between them. -/
def expressions (r : Rules) (ends : Bool) : Reader Expr := do
  let first ← valueOf (r.expression ends)
  let more ← many (do
    mark ","
    valueOf (r.expression ends))
  return if more.isEmpty then first else .other .sequence

/-- Expressions in parentheses. -/
def group (r : Rules) : Reader Unit := do
  mark "("
  let _ ← expressions r false
  mark ")"

/-- A block of statements. -/
def block (r : Rules) : Reader Unit := do
  mark "\x7b"
  let _ ← many r.statement
  let _ ← passGaps
  mark "\x7d"

end Rigging.Script
