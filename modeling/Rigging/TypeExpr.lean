import Rigging.Distinct
import Rigging.Doc.Reader

/-!
# Type expressions

The types that doc comments name, brought to a closed grammar: keywords, instances of models,
arrays, and promises of unions.  Whatever else a comment says is the wildcard `any`, leaf by leaf, so
that an array of something unknown is still an array.

`read` takes a text to its expression, `within` replaces instances of unknown models and repeated
members of promises, and `print` writes an expression.  `normalize` is the three in a row.
-/

namespace Rigging

/-- A type.  A keyword is given by its spelling in declarations. -/
inductive TypeExpr where
  | keyword (spelling : String)
  | instanceOf (model : String)
  | array (element : TypeExpr)
  | promise (members : List TypeExpr)
deriving Repr, Inhabited

namespace TypeExpr

/-- The spelling of the type that admits everything. -/
def wildcard : String := "any"

/-- The type that admits everything. -/
def any : TypeExpr := keyword wildcard

/-- The keywords of doc comments with the types they stand for. -/
def keywords : List (String × TypeExpr) :=
  [("string", keyword "string"), ("String", keyword "String"),
    ("number", keyword "number"), ("Number", keyword "Number"),
    ("boolean", keyword "boolean"), ("Boolean", keyword "Boolean"),
    ("object", keyword "object"), ("Object", keyword "Object"),
    ("array", array any), ("Array", keyword "Array"),
    ("function", keyword "Function"), ("Function", keyword "Function"),
    ("void", keyword "void"), ("any", any)]

/-- Whether a text stays on one line. -/
def isOneLine (cs : List Char) : Bool :=
  !cs.contains '\n'

/-- What stands behind `start`, if the text starts so. -/
def after? (start : String) (cs : List Char) : Option (List Char) :=
  if start.toList.isPrefixOf cs then some (cs.drop start.length) else none

/-- What stands before `stop`, if the text ends so. -/
def before? (stop : String) (cs : List Char) : Option (List Char) :=
  if stop.toList.isSuffixOf cs then some (cs.take (cs.length - stop.length)) else none

/-- The type behind the three dots of a rest parameter. -/
def restInner? (cs : List Char) : Option (List Char) :=
  (after? "..." cs).filter fun inner => !inner.isEmpty && isOneLine inner

/-- The element of an array type. -/
def arrayInner? (cs : List Char) : Option (List Char) :=
  (before? "[]" cs).filter fun inner => !inner.isEmpty && isOneLine inner

/-- The union inside a promise type. -/
def promiseInner? (cs : List Char) : Option (List Char) := do
  let inner ← after? "Promise<" cs
  let inner ← before? ">" inner
  if isOneLine inner then some inner else none

/-- Whether a text is a name. -/
def isName : List Char → Bool
  | [] => false
  | c :: cs => Doc.isNameStart c && cs.all Doc.isNamePart

/-- The model of an instance type. -/
def instanceModel? (cs : List Char) : Option String := do
  let inner ← after? "$" cs
  let name ← before? "Instance" inner
  if isName name then some (String.ofList name) else none

/-- The spelling of the instance type of a model. -/
def instanceName (model : String) : String :=
  "$" ++ model ++ "Instance"

/-- Reads a type; `fuel` bounds its depth. -/
def readAt (fuel : Nat) (text : List Char) : TypeExpr :=
  match fuel with
  | 0 => any
  | fuel + 1 =>
    let cs := Text.trimChars text
    match restInner? cs with
    | some inner => readAt fuel inner
    | none =>
      match arrayInner? cs with
      | some inner => array (readAt fuel inner)
      | none =>
        match promiseInner? cs with
        | some inner => promise ((Union.members inner).map (readAt fuel))
        | none =>
          match instanceModel? cs with
          | some model => instanceOf model
          | none => (keywords.lookup (String.ofList cs)).getD any

/-- Reads a type.  Every step into a type takes characters away, so a text's length bounds its
depth. -/
def read (text : String) : TypeExpr :=
  readAt (text.length + 1) text.toList

mutual

/-- The text of a type. -/
def print : TypeExpr → String
  | keyword spelling => spelling
  | instanceOf model => instanceName model
  | array element => print element ++ "[]"
  | promise members => "Promise<" ++ Union.join (printAll members) ++ ">"

/-- The texts of types. -/
def printAll : List TypeExpr → List String
  | [] => []
  | t :: ts => print t :: printAll ts

end

/-- Types without later repetitions, where types are compared by their text. -/
def distinctTypes : List TypeExpr → List TypeExpr
  | [] => []
  | t :: ts => t :: (distinctTypes ts).filter fun u => !(u.print == t.print)

mutual

/-- The type relative to known models: an instance of another model is anything, and a promise has
each member once and at least one. -/
def within (known : String → Bool) : TypeExpr → TypeExpr
  | keyword spelling => keyword spelling
  | instanceOf model => if known model then instanceOf model else any
  | array element => array (within known element)
  | promise members =>
    let ms := distinctTypes (withinAll known members)
    promise (if ms.isEmpty then [any] else ms)

/-- The types relative to known models. -/
def withinAll (known : String → Bool) : List TypeExpr → List TypeExpr
  | [] => []
  | t :: ts => within known t :: withinAll known ts

end

mutual

/-- The models whose instances a type mentions, in order, with repetitions. -/
def models : TypeExpr → List String
  | keyword _ => []
  | instanceOf model => [model]
  | array element => models element
  | promise members => modelsOfAll members

/-- The models whose instances types mention. -/
def modelsOfAll : List TypeExpr → List String
  | [] => []
  | t :: ts => models t ++ modelsOfAll ts

end

/-- A type text brought to the closed grammar. -/
def normalize (known : String → Bool) (text : String) : String :=
  ((read text).within known).print

/-- Type texts brought to the closed grammar, each once. -/
def normalizeAll (known : String → Bool) (texts : List String) : List String :=
  distinct (texts.map (normalize known))

/-- The models whose instances a type text mentions. -/
def referenced (text : String) : List String :=
  (read text).models

end TypeExpr

end Rigging
