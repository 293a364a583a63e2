import Rigging.Script.Expression

/-!
# Statements

The statements of a script.  Of all of them only expressions are kept.
-/

namespace Rigging.Script

open Reader

/-- A statement that is an expression. -/
def expressionStatement (r : Rules) : Reader Statement := do
  let e ← expressions r true
  semicolon false
  return .expression e

/-- What a declaration binds: a name or a pattern. -/
def binding (r : Rules) : Reader Unit :=
  choice [
    (do let _ ← name),
    (do
      let c ← objectLiteral r
      ensure c.pattern),
    (do
      let c ← arrayLiteral r
      ensure c.pattern)]

/-- One binding of a declaration, with whether it has a value. -/
def declarator (r : Rules) : Reader Bool := do
  binding r
  taken (do
    mark "="
    let _ ← valueOf (r.expression true))

/-- The keyword of a declaration of variables. -/
def declarationKeyword : Reader Unit :=
  keyword "var" <|> keyword "let" <|> keyword "const"

/-- A declaration of variables. -/
def variableDeclaration (r : Rules) : Reader Unit := do
  declarationKeyword
  let first ← declarator r
  let more ← many (do
    mark ","
    declarator r)
  semicolon !((first :: more).getLast?.getD false)

/-- A declaration of a function. -/
def functionDeclaration (r : Rules) : Reader Unit := do
  let _ ← function r true

/-- A declaration. -/
def declaration (r : Rules) : Reader Unit :=
  choice [variableDeclaration r, functionDeclaration r, classFrom r true]

/-- A condition with a statement for each outcome. -/
def conditional (r : Rules) : Reader Unit := do
  keyword "if"
  group r
  let _ ← r.statement
  let _ ← optional (do
    keyword "else"
    r.statement)

/-- One case of a switch. -/
def switchCase (r : Rules) : Reader Unit := do
  (do
    keyword "case"
    let _ ← expressions r false) <|> keyword "default"
  mark ":"
  let _ ← many r.statement

/-- A switch. -/
def switch (r : Rules) : Reader Unit := do
  keyword "switch"
  group r
  mark "\x7b"
  let _ ← many (switchCase r)
  mark "\x7d"

/-- What a loop over an object binds. -/
def loopTarget (r : Rules) : Reader Unit :=
  (do
    declarationKeyword
    binding r
    let _ ← optional (do
      mark "="
      valueOf (r.operand false))) <|>
  (do
    let c ← r.operand false
    ensure c.isTarget)

/-- A loop over an object. -/
def loopOver (r : Rules) : Reader Unit := do
  keyword "for"
  let _ ← taken (keyword "await")
  mark "("
  loopTarget r
  keyword "in" <|> keyword "of"
  let _ ← expressions r false
  mark ")"
  let _ ← r.statement

/-- The start of a counting loop. -/
def loopStart (r : Rules) : Reader Unit :=
  choice [
    mark ";",
    variableDeclaration r,
    (do
      let _ ← expressions r false
      mark ";")]

/-- A counting loop. -/
def loopCounting (r : Rules) : Reader Unit := do
  keyword "for"
  mark "("
  loopStart r
  let _ ← optional (expressions r false)
  mark ";"
  let _ ← optional (expressions r false)
  mark ")"
  let _ ← r.statement

/-- A loop with its condition in front, or a statement with an object. -/
def headed (r : Rules) (w : String) : Reader Unit := do
  keyword w
  group r
  let _ ← r.statement

/-- A loop with its condition behind. -/
def loopUntil (r : Rules) : Reader Unit := do
  keyword "do"
  let _ ← r.statement
  keyword "while"
  group r
  let _ ← taken (mark ";")

/-- The part of a guarded block that handles what was thrown. -/
def handler (r : Rules) : Reader Unit := do
  keyword "catch"
  let _ ← optional (do
    mark "("
    binding r
    mark ")")
  block r

/-- A guarded block. -/
def guarded (r : Rules) : Reader Unit := do
  keyword "try"
  block r
  let _ ← optional (handler r)
  let _ ← optional (do
    keyword "finally"
    block r)

/-- A jump, perhaps to a label. -/
def jump (w : String) : Reader Unit := do
  keyword w
  let ended ← atEnd true
  if ended then pure ()
  else
    let _ ← optional name
    semicolon true

/-- A return, perhaps with a value. -/
def returning (r : Rules) : Reader Unit := do
  keyword "return"
  let ended ← atEnd true
  if ended then pure ()
  else
    (do
      let _ ← expressions r true
      semicolon false) <|> mark ";"

/-- A statement that throws. -/
def throwing (r : Rules) : Reader Unit := do
  keyword "throw"
  let _ ← expressions r true
  semicolon false

/-- A statement with a label. -/
def labelled (r : Rules) : Reader Unit := do
  let _ ← name
  mark ":"
  let _ ← r.statement

/-- The name under which a module offers something. -/
def exportName : Reader Unit :=
  choice [
    (do let _ ← name),
    keyword "default",
    (do let _ ← stringLiteral)]

/-- Names in braces, each perhaps renamed; the list may end with a comma. -/
def renamedNames (inner : Reader Unit) : Reader Unit := do
  mark "\x7b"
  let _ ← optional (do
    inner
    let _ ← many (do
      mark ","
      inner))
  let _ ← taken (mark ",")
  mark "\x7d"

/-- A name that may be renamed. -/
def renamed : Reader Unit := do
  exportName
  let _ ← optional (do
    keyword "as"
    exportName)

/-- Everything a module offers, under one name. -/
def wholeModule : Reader Unit := do
  mark "*"
  keyword "as"
  exportName

/-- The module something comes from. -/
def fromModule : Reader Unit := do
  keyword "from"
  let _ ← stringLiteral

/-- What an import binds. -/
def importClause : Reader Unit :=
  choice [
    wholeModule,
    renamedNames renamed,
    (do
      let _ ← name
      let _ ← optional (do
        mark ","
        wholeModule <|> renamedNames renamed))]

/-- An import. -/
def importStatement (r : Rules) : Reader Unit := do
  keyword "import"
  (do
    let _ ← stringLiteral) <|>
  (do
    importClause
    fromModule)
  let _ ← optional (do
    keyword "with"
    objectLiteral r)
  semicolon true

/-- An export of names. -/
def exportNames : Reader Unit := do
  choice [
    (do
      wholeModule
      fromModule),
    (do
      mark "*"
      fromModule),
    (do
      renamedNames renamed
      let _ ← optional fromModule)]
  semicolon true

/-- An export. -/
def exportStatement (r : Rules) : Reader Unit := do
  let _ ← many (decorator r)
  keyword "export"
  choice [
    exportNames,
    (do
      keyword "default"
      choice [
        declaration r,
        (do
          let _ ← valueOf (r.expression true)
          semicolon false)]),
    declaration r]

/-- A statement that leaves no expression. -/
def silent (p : Reader Unit) : Reader Statement := do
  p
  return .other

/-- A statement that starts with a word. -/
def wordStatement (r : Rules) (w : String) : Reader Statement :=
  match w with
  | "var" => silent (variableDeclaration r)
  | "const" => silent (variableDeclaration r)
  | "let" => silent (variableDeclaration r) <|> silent (labelled r) <|> expressionStatement r
  | "function" => silent (functionDeclaration r) <|> expressionStatement r
  | "async" => silent (functionDeclaration r) <|> silent (labelled r) <|> expressionStatement r
  | "class" => silent (classFrom r true) <|> expressionStatement r
  | "if" => silent (conditional r)
  | "switch" => silent (switch r)
  | "for" => silent (loopOver r) <|> silent (loopCounting r)
  | "while" => silent (headed r "while")
  | "with" => silent (headed r "with")
  | "do" => silent (loopUntil r)
  | "try" => silent (guarded r)
  | "break" => silent (jump w)
  | "continue" => silent (jump w)
  | "debugger" => silent do
    keyword w
    semicolon true
  | "return" => silent (returning r)
  | "throw" => silent (throwing r)
  | "import" => silent (importStatement r) <|> expressionStatement r
  | "export" => silent (exportStatement r)
  | _ => silent (labelled r) <|> expressionStatement r

/-- The words that cannot be the first key of an object at the start of a statement, since there they
start a statement or an operand of a block. -/
def blockWords : List String :=
  "await" :: "yield" :: reserved.filter fun w =>
    w ∉ ["case", "catch", "default", "else", "extends", "finally", "in", "instanceof"]

/-- An expression that starts with an object, at the start of a statement. -/
def objectStatement (r : Rules) : Reader Statement := do
  let cs ← peekRaw
  let inner := ((Cursor.start cs).skip 1).toLexeme.rest
  ensure !(blockWords.contains (String.ofList (inner.take (wordLength inner))))
  expressionStatement r

/-- A statement. -/
def statement (r : Rules) : Reader Statement := do
  let _ ← passGaps
  let cs ← peekRaw
  match wordLength cs with
  | 0 =>
    match cs with
    | '{' :: _ => silent (block r) <|> objectStatement r
    | ';' :: _ => silent (mark ";")
    | '@' :: _ =>
      silent (exportStatement r) <|> silent (classFrom r true) <|> expressionStatement r
    | _ => expressionStatement r
  | n + 1 => wordStatement r (String.ofList (cs.take (n + 1)))

end Rigging.Script
