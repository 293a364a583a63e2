import Rigging.Script.Class
import Rigging.Script.Markup

/-!
# Expressions

An expression is one or more operands with binary operators between them, and perhaps a choice
between two others behind it.  Assignments and arrow functions count as operands: whatever stands to
the left of the arrow or equals sign is the last operand alone, and everything to the right belongs
to them.  How operators bind is not needed, since only the kind of the whole is kept.
-/

namespace Rigging.Script

open Reader

/-- The operators between two operands that are punctuation. -/
def binaryMarks : List (List Char) :=
  ["&&", "||", ">>", ">>>", "<<", "&", "^", "|", "+", "-", "*", "/", "%", "**", "<", "<=", "==",
    "===", "!=", "!==", ">=", ">", "??"].map String.toList

/-- The operators of an assignment that keeps the old value. -/
def assignmentMarks : List (List Char) :=
  ["+=", "-=", "*=", "/=", "%=", "^=", "&=", "|=", ">>=", ">>>=", "<<=", "**=", "&&=", "||=",
    "??="].map String.toList

/-- Reads punctuation that is one of several. -/
def anyMark (marks : List (List Char)) : Reader Unit := do
  let _ ← lexeme fun rest =>
    let p := punctuatorAt rest
    if marks.contains p then p.length else 0

/-- Reads a binary operator. -/
def binaryOperator : Reader Unit :=
  anyMark binaryMarks <|> keyword "in" <|> keyword "instanceof"

/-- Behind an arrow: a block, or an expression; with whether it was a block. -/
def arrowBody (r : Rules) (ends : Bool) : Reader Bool := do
  mark "=>"
  (do
    block r
    return true) <|>
  (do
    let _ ← valueOf (r.expression ends)
    return false)

/-- The name of a property behind its point. -/
def propertyName : Reader String :=
  word <|> privateName

/-- The member of an object. -/
def memberOf (object : Cover) (property : String) : Cover :=
  match object.expr with
  | .name text => .place (.member (some text) property)
  | _ => .place (.member none property)

/-- A subscript in its brackets. -/
def subscript (r : Rules) : Reader Cover := do
  mark "["
  let _ ← expressions r false
  mark "]"
  return .place (.other .subscript)

/-- Arguments or a template, which make a call. -/
def callTail (r : Rules) : Reader Cover := do
  arguments r <|> template r
  return .ofKind .call

/-- What follows the mark of an optional chain. -/
def chained (r : Rules) (object : Cover) : Reader Cover :=
  choice [
    (do return memberOf object (← propertyName)),
    subscript r,
    (do
      arguments r
      return .ofKind .call)]

/-- A property, a subscript or an optional chain behind an operand. -/
def accessTail (r : Rules) (object : Cover) : Reader Cover :=
  choice [
    (do
      mark "."
      return memberOf object (← propertyName)),
    (do
      mark "?."
      chained r object),
    subscript r]

/-- An increment or decrement behind an operand, unless the statement ends in front of it. -/
def updateTail (ends : Bool) : Reader Cover := do
  if ends then
    let ended ← atEnd false
    ensure !ended
  mark "++" <|> mark "--"
  return .ofKind .update

/-- One step behind an operand. -/
def tailStep (r : Rules) (ends : Bool) (c : Cover) : Reader Cover := do
  ensure c.value
  choice [accessTail r c, callTail r, updateTail ends]

/-- The steps behind an operand, at most `n`. -/
def tailUpTo (r : Rules) (ends : Bool) (c : Cover) : Nat → Reader Cover
  | 0 => pure c
  | n + 1 => do
    match ← optional (tailStep r ends c) with
    | some next => tailUpTo r ends next n
    | none => return c

/-- An assignment behind its left side, or the left side alone. -/
def assignmentTail (r : Rules) (ends : Bool) (c : Cover) : Reader Cover :=
  choice [
    (do
      ensure c.isTarget
      mark "="
      let v ← valueOf (r.expression ends)
      return ⟨.assignment c.expr v, true, false, c.pattern⟩),
    (do
      ensure c.isUpdatable
      anyMark assignmentMarks
      let _ ← valueOf (r.expression ends)
      return .ofKind .augmented),
    pure c]

/-- Everything that can follow a primary expression within an operand. -/
def tail (r : Rules) (ends : Bool) (c : Cover) : Reader Cover := fun cursor =>
  (do
    let c ← tailUpTo r ends c cursor.bound
    assignmentTail r ends c) cursor

/-- An arrow function behind its parameters. -/
def arrow (r : Rules) (ends async : Bool) (ps : List Param) : Reader Cover := do
  let whole ← arrowBody r ends
  let c := Cover.ofValue (.function .arrow async ps)
  if whole then tail r ends c else return c

/-- A list in parentheses: the parameters of an arrow function, or a grouped expression. -/
def parenthesized (r : Rules) (ends : Bool) : Reader Cover := do
  mark "("
  let s ← slots r
  mark ")"
  let asArrow : Reader Cover :=
    match s.params? with
    | some ps => arrow r ends false ps
    | none => refuse
  asArrow <|> (do
    ensure s.isGroup
    tail r ends (.ofKind .parenthesized))

/-- A name: the parameter of an arrow function, or an operand. -/
def named (r : Rules) (ends : Bool) : Reader Cover := do
  let text ← name
  arrow r ends false [.name text] <|> tail r ends (.place (.name text))

/-- An asynchronous function or arrow function, or an operand that has that name. -/
def asynchronous (r : Rules) (ends : Bool) : Reader Cover :=
  choice [
    (do
      keyword "async"
      let f ← functionFrom r true false
      tail r ends (.ofValue f)),
    (do
      keyword "async"
      let text ← name
      arrow r ends true [.name text]),
    (do
      keyword "async"
      let ps ← parameters r
      arrow r ends true ps),
    named r ends]

/-- What an operator `new` is applied to: an operand without arguments. -/
def newTarget (r : Rules) : Reader Cover := do
  let cs ← peek
  let w := String.ofList (cs.take (wordLength cs))
  let base : Reader Cover :=
    if w = "new" then (do
      keyword "new"
      let _ ← r.newTarget
      let _ ← optional (arguments r)
      return .ofKind .new)
    else if w = "function" || w = "async" then
      (do return .ofValue (← function r false)) <|> (do return .place (.name (← name)))
    else if w = "class" then (do
      classFrom r false
      return .ofKind .classExpr)
    else if w = "import" then (do
      keyword "import"
      return .ofKind .importWord)
    else if ["this", "super", "null", "true", "false"].contains w then (do
      keyword w
      return .ofKind .thisWord)
    else choice [
      (do return .place (.name (← name))),
      (do
        group r
        return .ofKind .parenthesized),
      arrayLiteral r,
      objectLiteral r,
      (do return .ofValue (.string (← stringLiteral))),
      (do
        let _ ← lexeme numberLength
        return .ofKind .number),
      (do
        let _ ← lexeme regexLength
        return .ofKind .regex),
      (do
        template r
        return .ofKind .template)]
  let c ← base
  let steps ← many (accessTail r c <|> (do
    template r
    return .ofKind .call))
  return (steps.getLast?).getD c

/-- An operand that starts with `new`. -/
def construction (r : Rules) (ends : Bool) : Reader Cover := do
  keyword "new"
  (do
    mark "."
    keyword "target"
    tail r ends (.ofKind .metaProperty)) <|>
  (do
    let _ ← r.newTarget
    let _ ← optional (arguments r)
    tail r ends (.ofKind .new))

/-- An operand that starts with `import`. -/
def importing (r : Rules) (ends : Bool) : Reader Cover := do
  keyword "import"
  (do
    mark "."
    keyword "meta"
    tail r ends (.ofKind .metaProperty)) <|>
  (do
    let first ← accessTail r (.ofKind .importWord) <|> (do
      arguments r
      return .ofKind .call)
    tail r ends first)

/-- An operand that starts with `yield`. -/
def yielding (r : Rules) (ends : Bool) : Reader Cover := do
  keyword "yield"
  let ended ← atEnd false
  if ends && ended then tail r ends (.ofKind .yield)
  else
    (do
      mark "*"
      let _ ← valueOf (r.expression ends)
      return .ofKind .yield) <|>
    (do
      let _ ← valueOf (r.expression ends)
      return .ofKind .yield) <|>
    tail r ends (.ofKind .yield)

/-- An operator in front of an operand. -/
def unary (r : Rules) (ends : Bool) (operator : Reader Unit) (kind : Kind) : Reader Cover := do
  operator
  let _ ← valueOf (r.operand ends)
  return .ofKind kind

/-- An operand that starts with a word. -/
def wordOperand (r : Rules) (ends : Bool) (w : String) : Reader Cover :=
  let only (e : Expr) : Reader Cover := do
    keyword w
    tail r ends (.ofValue e)
  match w with
  | "function" => do
    let f ← functionFrom r false false
    tail r ends (.ofValue f)
  | "class" => do
    classFrom r false
    tail r ends (.ofKind .classExpr)
  | "async" => asynchronous r ends
  | "new" => construction r ends
  | "import" => importing r ends
  | "typeof" => unary r ends (keyword w) .unary
  | "void" => unary r ends (keyword w) .unary
  | "delete" => unary r ends (keyword w) .unary
  | "await" => unary r ends (keyword w) .await
  | "yield" => yielding r ends
  | "this" => only (.other .thisWord)
  | "super" => only (.other .superWord)
  | "null" => only (.other .nullWord)
  | "true" => only (.boolean true)
  | "false" => only (.boolean false)
  | "undefined" => do
    keyword w
    tail r ends (.place (.other .undefinedWord))
  | _ => named r ends

/-- A private name that is looked for in an object. -/
def privateSearch (r : Rules) (ends : Bool) : Reader Cover := do
  let _ ← privateName
  keyword "in"
  let _ ← valueOf (r.operand ends)
  return .ofKind .binary

/-- An operand that starts with punctuation, a quote or a digit. -/
def markOperand (r : Rules) (ends : Bool) (c : Char) : Reader Cover :=
  match c with
  | '(' => parenthesized r ends
  | '[' => do tail r ends (← arrayLiteral r)
  | '{' => do tail r ends (← objectLiteral r)
  | '"' => do tail r ends (.ofValue (.string (← stringLiteral)))
  | '\'' => do tail r ends (.ofValue (.string (← stringLiteral)))
  | '`' => do
    template r
    tail r ends (.ofKind .template)
  | '/' => do
    let _ ← lexeme regexLength
    tail r ends (.ofKind .regex)
  | '<' => do
    let kind ← r.element
    tail r ends (.ofKind kind)
  | '#' => privateSearch r ends
  | '@' => do
    classFrom r false
    tail r ends (.ofKind .classExpr)
  | '!' => unary r ends (mark "!") .unary
  | '~' => unary r ends (mark "~") .unary
  | '+' => unary r ends (mark "++") .update <|> unary r ends (mark "+") .unary
  | '-' => unary r ends (mark "--") .update <|> unary r ends (mark "-") .unary
  | _ => do
    let text ← lexeme numberLength
    tail r ends (.ofValue (.number text))

/-- An operand. -/
def operand (r : Rules) (ends : Bool) : Reader Cover := do
  let _ ← passGaps
  let cs ← peekRaw
  match wordLength cs with
  | 0 =>
    match cs with
    | c :: _ => markOperand r ends c
    | [] => refuse
  | n + 1 => wordOperand r ends (String.ofList (cs.take (n + 1)))

/-- An expression. -/
def expression (r : Rules) (ends : Bool) : Reader Cover := do
  let first ← r.operand ends
  let more ← many (do
    ensure first.value
    binaryOperator
    valueOf (r.operand ends))
  let choices ← optional (do
    ensure first.value
    mark "?"
    let _ ← valueOf (r.expression false)
    mark ":"
    valueOf (r.expression ends))
  match choices with
  | some _ => return .ofKind .ternary
  | none => return if more.isEmpty then first else .ofKind .binary

end Rigging.Script
