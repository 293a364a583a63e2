import Rigging.Assoc
import Rigging.Doc.Basic
import Rigging.Json.Writer
import Rigging.Number.Numeral

/-!
# Entities

An entity is a model or a service of a project: the attributes and functions its module exports,
the models it refers to, and the declarations that have been written for it so far.
-/

namespace Rigging

/-- A literal value of a property. -/
inductive Scalar where
  | null
  | bool (value : Bool)
  | int (value : Int)
  | float (value : Number.Binary64)
  | string (value : String)
deriving DecidableEq, Repr, Inhabited

namespace Scalar

/-- The value as JSON. -/
def toJson : Scalar → Json
  | null => .null
  | bool b => .bool b
  | int n => .int n
  | float x => .float x
  | string s => .string s

/-- Whether the value counts as given: null, false, zero and the empty text do not. -/
def truthy (v : Scalar) : Bool := v.toJson.truthy

/-- The value as a message shows it. -/
def display (v : Scalar) : String := v.toJson.display

/-- Whether a message can show the value: a whole number must not have more digits than are read. -/
def isShowable : Scalar → Bool
  | int n => n.natAbs < Number.leastTooLong
  | _ => true

end Scalar

/-- The properties of an attribute, in order. -/
abbrev Properties := List (String × Scalar)

namespace Properties

/-- The value of a property if it counts as given. -/
def given? (key : String) (ps : Properties) : Option Scalar :=
  (Assoc.get? key ps).filter Scalar.truthy

end Properties

/-- An attribute of a model. -/
structure Attribute where
  name : String
  properties : Properties
  doc : Option Doc
deriving DecidableEq, Repr, Inhabited

/-- A parameter with its types. -/
structure TypedParam where
  name : String
  types : List String
  optional : Bool
deriving DecidableEq, Repr, Inhabited

/-- The mark in front of a rest parameter's name. -/
def restMark : String := "..."

/-- Whether a parameter takes all remaining arguments. -/
def TypedParam.isRest (p : TypedParam) : Bool :=
  restMark.toList.isPrefixOf p.name.toList

/-- A function of an entity.  `params` are the names as written, a rest parameter with its mark. -/
structure Function where
  name : String
  params : List String
  isAsync : Bool
  doc : Option Doc
  typedParams : List TypedParam
deriving DecidableEq, Repr, Inhabited

/-- The two kinds of entities. -/
inductive EntityKind where
  | model
  | service
deriving DecidableEq, Repr, Inhabited

namespace EntityKind

/-- The word for a kind. -/
def word : EntityKind → String
  | model => "model"
  | service => "service"

/-- The word for a kind at the start of a sentence. -/
def title : EntityKind → String
  | model => "Model"
  | service => "Service"

/-- The kind that a word stands for. -/
def ofWord? (w : String) : Option EntityKind :=
  [model, service].find? fun k => k.word == w

end EntityKind

/-- What has been written for an entity: the class of its instances (models only), its own class,
and the whole file. -/
structure Declarations where
  instanceClass : Option String
  staticClass : Option String
  linked : Option String
deriving DecidableEq, Repr, Inhabited

/-- Nothing has been written. -/
def Declarations.none : Declarations := ⟨Option.none, Option.none, Option.none⟩

/-- A model or service. -/
structure Entity where
  name : String
  filename : String
  kind : EntityKind
  owner : String
  attributes : List Attribute
  functions : List Function
  imports : List String
  declarations : Declarations
deriving DecidableEq, Repr, Inhabited

namespace Entity

/-- The owner of a project's own entities. -/
def rootOwner : String := "root project"

/-- An entity of which nothing is known yet. -/
def blank (name filename : String) (kind : EntityKind) (owner : String) : Entity :=
  ⟨name, filename, kind, owner, [], [], [], .none⟩

/-- Whether the entity is a model. -/
def isModel (e : Entity) : Bool := e.kind == .model

/-- The entity in messages: its name and file. -/
def describe (e : Entity) : String :=
  e.name ++ " (\"" ++ e.filename ++ "\")"

/-- The entity with one more import, unless it has it already. -/
def addImport (e : Entity) (name : String) : Entity :=
  if e.imports.contains name then e else { e with imports := e.imports ++ [name] }

end Entity

end Rigging
