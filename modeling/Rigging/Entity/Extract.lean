import Rigging.Act
import Rigging.Doc.Reader
import Rigging.Number.Numeral
import Rigging.Script.Module
import Rigging.Text.LowerCase
import Rigging.Text.Surrogate

/-!
# Entities of modules

What an entity takes from its module: the object literal assigned to `module.exports` gives the
functions, and the object under its key `attributes` gives the attributes.  The nearest comment in
front of a member is its doc comment.
-/

namespace Rigging.Extraction

open Script (Expr Item Key Kind Param Piece Statement)

/-- The short escapes. -/
def shortEscapes : List (String × String) :=
  [("n", "\n"), ("t", "\t"), ("r", "\r"), ("b", "\x08"), ("f", "\x0c"), ("v", "\x0b"),
    ("0", "\x00")]

/-- The largest number that can be asked for as a character. -/
def largestCode : Nat := 0x7FFFFFFF

/-- The character that a code escape names; a code beyond Unicode leaves the escape as written. -/
def codeValue (body : String) (digits : List Char) : Except Error String :=
  let n := Number.ofDigits 16 (digits.filterMap Number.digitValue?)
  if largestCode < n then .error (.system .numberTooLarge)
  else if 0x10FFFF < n then .ok body
  else .ok (String.singleton (Text.charOf n))

/-- What an escape stands for: a code, nothing for a continued line, a control for the short
escapes, and itself otherwise. -/
def escapeValue (body : String) : Except Error String :=
  match body.toList with
  | [] => .ok ""
  | c :: cs =>
    if c == 'x' || c == 'u' then codeValue body (cs.filter Script.isHex)
    else if c == '\r' || Script.isLineEnd c then .ok ""
    else .ok ((shortEscapes.lookup body).getD body)

/-- What a piece of a string stands for. -/
def pieceValue : Piece → Except Error String
  | .text value => .ok value
  | .escape body => escapeValue body

/-- The value of a string. -/
def stringValue (pieces : List Piece) : Except Error String := do
  let parts ← pieces.mapM pieceValue
  return String.join parts

/-- The name that a key gives. -/
def keyName : Key → Except Error (Option String)
  | .name text => .ok (some text)
  | .string pieces => do return some (← stringValue pieces)
  | .other => .ok none

/-- The value of a number: whole if it can be read so, decimal otherwise. -/
def numberValue (text : String) : Option Scalar :=
  let cs := text.toList
  match Number.whole? cs with
  | some n => some (.int n)
  | none => (Number.decimal? cs).map .float

/-- The value of a literal. -/
def literalValue : Expr → Except Error (Option Scalar)
  | .string pieces => do return some (.string (← stringValue pieces))
  | .number text => .ok (numberValue text)
  | .boolean b => .ok (some (.bool b))
  | _ => .ok none

/-- The doc comment that an item gives to the member behind it. -/
def leadingDoc : Option Item → Option Doc
  | some (.comment text) => if "/*".toList.isPrefixOf text.toList then Doc.ofComment? text else none
  | _ => none

/-- Every item with the one in front of it. -/
def withPrevious (previous : Option Item) : List Item → List (Option Item × Item)
  | [] => []
  | x :: xs => (previous, x) :: withPrevious (some x) xs

/-- The object literal that a statement assigns to `module.exports`. -/
def exported? : Statement → Option (List Item)
  | .expression (.assignment (.member (some object) property) (.object items)) =>
    if object = "module" && property = "exports" then some items else none
  | _ => none

/-- The first object literal that is assigned to `module.exports`. -/
def exports? (statements : List Statement) : Option (List Item) :=
  statements.findSome? exported?

/-- The object under the key `attributes`. -/
def attributesObject (entity : Entity) : List Item → Act Unit (Option (List Item))
  | [] => pure none
  | .shorthand text :: rest =>
    if text = "attributes" then do
      Act.notify (.shorthandAttributes entity.describe)
      return none
    else attributesObject entity rest
  | .pair key value :: rest => do
    let name ← Act.ofExcept (keyName key)
    if name = some "attributes" then
      match value with
      | .object items => return some items
      | _ =>
        Act.notify (.attributesNotObject entity.describe value.kind)
        return none
    else attributesObject entity rest
  | _ :: rest => attributesObject entity rest

/-- The literal properties of an attribute; of a property that comes twice the later value stays. -/
def propertiesFrom (entity : Entity) (attr : String) (found : Properties) :
    List Item → Act Unit Properties
  | [] => pure found
  | .pair key value :: rest => do
    match ← Act.ofExcept (keyName key) with
    | none => propertiesFrom entity attr found rest
    | some name =>
      match ← Act.ofExcept (literalValue value) with
      | none => propertiesFrom entity attr found rest
      | some literal =>
        if (Assoc.get? name found).isSome then
          Act.notify (.duplicateProperty name attr entity.describe)
        propertiesFrom entity attr (Assoc.put name literal found) rest
  | _ :: rest => propertiesFrom entity attr found rest

/-- The attributes of an object.  Names are told apart without regard to case; `seen` holds the
names so far by their lower-case form. -/
def attributesFrom (entity : Entity) (seen : List (String × String)) :
    List (Option Item × Item) → Act Unit (List Attribute)
  | [] => pure []
  | (previous, .pair key value) :: rest => do
    match ← Act.ofExcept (keyName key) with
    | none => attributesFrom entity seen rest
    | some name =>
      match value with
      | .object items =>
        let identity := Text.lower name
        match Assoc.get? identity seen with
        | some other => Act.fail (.attributeConflict entity.describe entity.owner name other)
        | none =>
          let properties ← propertiesFrom entity name [] items
          let more ← attributesFrom entity ((identity, name) :: seen) rest
          return ⟨name, properties, leadingDoc previous⟩ :: more
      | _ =>
        Act.notify (.attributeNotObject name entity.describe value.kind)
        attributesFrom entity seen rest
  | _ :: rest => attributesFrom entity seen rest

/-- The names of parameters that count: plain ones, and rest parameters with their mark. -/
def paramNames (params : List Param) : List String :=
  params.filterMap fun p =>
    match p with
    | .name text => some text
    | .rest text => some (restMark ++ text)
    | .other => none

/-- The functions of an object: methods, and functions given as values. -/
def functionsFrom (entity : Entity) : List (Option Item × Item) → Act Unit (List Function)
  | [] => pure []
  | (previous, .method key async params) :: rest => do
    match ← Act.ofExcept (keyName key) with
    | none => functionsFrom entity rest
    | some name =>
      let more ← functionsFrom entity rest
      return ⟨name, paramNames params, async, leadingDoc previous, []⟩ :: more
  | (previous, .pair key (.function _ async params)) :: rest => do
    match ← Act.ofExcept (keyName key) with
    | none => functionsFrom entity rest
    | some name =>
      Act.notify (.methodAsProperty name entity.describe)
      let more ← functionsFrom entity rest
      return ⟨name, paramNames params, async, leadingDoc previous, []⟩ :: more
  | _ :: rest => functionsFrom entity rest

end Rigging.Extraction

namespace Rigging.Entity

open Rigging.Extraction

/-- The entity that a module's statements make of a blank one. -/
def fill (entity : Entity) (statements : List Script.Statement) : Act Unit Entity := do
  match exports? statements with
  | none =>
    Act.notify (.noExports entity.describe)
    return entity
  | some items =>
    let attributes ← match ← attributesObject entity items with
      | some inner => attributesFrom entity [] (withPrevious none inner)
      | none => pure []
    let functions ← functionsFrom entity (withPrevious none items)
    return { entity with attributes, functions }

/-- The entity of what a module holds. -/
def ofSource (name filename : String) (kind : EntityKind) (owner text : String) :
    Act Unit Entity :=
  match Script.read text with
  | .error line => Act.fail (.brokenModule kind filename line)
  | .ok statements => (Entity.blank name filename kind owner).fill statements

/-- The entity of a text that is given as a module; halves of characters cannot be read. -/
def ofText (name filename : String) (kind : EntityKind) (owner text : String) :
    Act Unit Entity :=
  if !Text.encodable text then Act.fail (.system .unencodable)
  else ofSource name filename kind owner text

end Rigging.Entity
