import Rigging.Script.Literal

/-!
# Markup in a script

Elements with their attributes and children.  A closing tag need not repeat the name of the opening
one.
-/

namespace Rigging.Script

open Reader

/-- Exactly these characters as a lexeme. -/
def exactly (s : String) : Reader Unit := do
  let cs := s.toList
  let _ ← lexeme fun rest => if cs.isPrefixOf rest then cs.length else 0

/-- The length of a name in markup, which may have dashes. -/
def markupNameLength (cs : List Char) : Nat :=
  let n := wordLength cs
  if n = 0 then 0
  else n + ((cs.drop n).takeWhile fun c => c == '-' || c == '_' || c == '$' || c.isAlphanum).length

/-- The name of an element or attribute: parts with points or one colon between them. -/
def markupName : Reader Unit := do
  let _ ← lexeme markupNameLength
  let _ ← many (do
    mark "." <|> mark ":"
    let _ ← lexeme markupNameLength)

/-- An expression in braces, which may be missing. -/
def embedded (r : Rules) : Reader Unit := do
  mark "\x7b"
  let _ ← optional (do
    let _ ← taken (mark "...")
    expressions r false)
  mark "\x7d"

/-- The length of an attribute's text with its quotes. -/
def attributeTextLength (cs : List Char) : Nat :=
  match cs with
  | q :: more =>
    if q = '"' || q = '\'' then
      let n := (more.takeWhile (· != q)).length
      if (more.drop n).isEmpty then 0 else n + 2
    else 0
  | [] => 0

/-- The value of an attribute. -/
def attributeValue (r : Rules) : Reader Unit :=
  choice [
    (do let _ ← lexeme attributeTextLength),
    embedded r,
    (do let _ ← r.element)]

/-- An attribute. -/
def markupAttribute (r : Rules) : Reader Unit :=
  embedded r <|> (do
    markupName
    let _ ← optional (do
      mark "="
      attributeValue r))

/-- The length of a named or numbered character. -/
def referenceLength (cs : List Char) : Nat :=
  match cs with
  | '&' :: more =>
    let n := (more.takeWhile fun c => c == '#' || c.isAlphanum).length
    if (more.drop n).head? = some ';' && n ≠ 0 then n + 2 else 0
  | _ => 0

/-- The length of text between tags. -/
def markupTextLength (cs : List Char) : Nat :=
  (cs.takeWhile fun c => !"<>\x7b\x7d&".toList.contains c).length

/-- A child of an element. -/
def child (r : Rules) : Reader Unit :=
  choice [
    (do let _ ← adjacent markupTextLength),
    (do let _ ← adjacent referenceLength),
    embedded r,
    (do let _ ← r.element)]

/-- The end of an element that has children. -/
def closingTag : Reader Unit := do
  exactly "</"
  let _ ← optional markupName
  exactly ">"

/-- An element. -/
def element (r : Rules) : Reader Kind := do
  exactly "<"
  let named ← taken (do
    markupName
    let _ ← many (markupAttribute r))
  (do
    ensure named
    exactly "/>"
    return .selfClosing) <|>
  (do
    exactly ">"
    let _ ← many (child r)
    closingTag
    return .element)

end Rigging.Script
