import Rigging.Script.Literal

/-!
# Functions and classes

Functions with their parameters and bodies, and classes with their members: methods, fields, and
blocks that are run once.
-/

namespace Rigging.Script

open Reader

/-- A function from its keyword on; the name is required for a declaration. -/
def functionFrom (r : Rules) (async named : Bool) : Reader Expr := do
  keyword "function"
  let generator ← taken (mark "*")
  if named then
    let _ ← name
  else
    let _ ← optional name
  let ps ← parameters r
  block r
  return .function (if generator then .generator else .function) async ps

/-- A function, which may be asynchronous. -/
def function (r : Rules) (named : Bool) : Reader Expr := do
  let async ← taken (keyword "async")
  functionFrom r async named

/-- A field of a class: a key, a value if there is one, and the end of the field. -/
def field (r : Rules) : Reader Unit := do
  let value ← taken (do
    mark "="
    let _ ← valueOf (r.expression true))
  semicolon (!value)

/-- A method or field of a class. -/
def classMember (r : Rules) : Reader Unit := do
  let _ ← many (decorator r)
  let m ← modifiers true
  let k ← key r
  let method : Reader Unit := do
    let _ ← methodMember r k m.async
  if m.async || m.special then method else method <|> field r

/-- A block of a class that is run once. -/
def staticBlock (r : Rules) : Reader Unit := do
  keyword "static"
  block r

/-- The body of a class. -/
def classBody (r : Rules) : Reader Unit := do
  mark "\x7b"
  let _ ← many (mark ";" <|> staticBlock r <|> classMember r)
  mark "\x7d"

/-- A class; the name is required for a declaration. -/
def classFrom (r : Rules) (named : Bool) : Reader Unit := do
  let _ ← many (decorator r)
  keyword "class"
  if named then
    let _ ← name
  else
    let _ ← optional name
  let _ ← optional (do
    keyword "extends"
    valueOf (r.expression false))
  classBody r

end Rigging.Script
