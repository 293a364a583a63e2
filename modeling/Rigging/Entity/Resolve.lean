import Rigging.Act
import Rigging.Text.LowerCase
import Rigging.TypeExpr

/-!
# Resolving entities

Every type of an entity is brought to the closed grammar, its parameters get their documented
types, associations name their model as it is spelled, and the models that the entity mentions
become its imports.  The state of these actions is the entity: functions are resolved first, then
attributes in order, and an attribute that cannot be resolved ends the work there.
-/

namespace Rigging

/-- The known models, by the name they are known under. -/
abbrev Models := List (String × Entity)

namespace Models

/-- Whether a model is known. -/
def knows (models : Models) (name : String) : Bool :=
  models.any fun m => m.1 == name

/-- The first model whose name is the identity but for case. -/
def withIdentity? (models : Models) (identity : String) : Option Entity :=
  (models.find? fun m => Text.lower m.1 == Text.lower identity).map Prod.snd

end Models

/-- The name of a parameter without the mark of a rest parameter. -/
def plainName (name : String) : String :=
  ((TypeExpr.after? restMark name.toList).map String.ofList).getD name

/-- The types of a documented parameter; anything if none are given. -/
def documentedTypes (param : Option Doc.Param) : List String :=
  match param with
  | some p => if p.types.isEmpty then [TypeExpr.wildcard] else p.types
  | none => [TypeExpr.wildcard]

/-- Parameters with their documented types.  Behind an optional parameter every one is optional. -/
def typeParams (doc : Option Doc) (seenOptional : Bool) : List String → List TypedParam
  | [] => []
  | name :: names =>
    let documented := doc.bind fun d => d.param? (plainName name)
    let optional := seenOptional || documented.any Doc.Param.optional
    ⟨name, documentedTypes documented, optional⟩ :: typeParams doc optional names

namespace Function

/-- The parameters of a function with their documented types. -/
def withTypes (f : Function) : List TypedParam :=
  typeParams f.doc false f.params

/-- The doc comment with all its types in the closed grammar. -/
def normalizedDoc (known : String → Bool) (doc : Doc) : Doc :=
  { doc with
    params := doc.params.map fun p => { p with types := TypeExpr.normalizeAll known p.types }
    result := doc.result.map fun r => { r with types := TypeExpr.normalizeAll known r.types } }

/-- The function with all its types in the closed grammar. -/
def resolved (known : String → Bool) (f : Function) : Function :=
  let doc := f.doc.map (normalizedDoc known)
  { f with doc, typedParams := typeParams doc false f.params }

/-- The types that a function mentions: those of its parameters, then those of its result. -/
def mentionedTypes (f : Function) : List String :=
  f.typedParams.flatMap (·.types) ++ ((f.doc.bind (·.result)).map (·.types)).getD []

/-- The models whose instances a function mentions. -/
def mentionedModels (f : Function) : List String :=
  f.mentionedTypes.flatMap TypeExpr.referenced

end Function

namespace Entity

/-- The entity with all its functions resolved. -/
def resolveFunctions (models : Models) (e : Entity) : Entity :=
  let functions := e.functions.map (Function.resolved models.knows)
  (functions.flatMap Function.mentionedModels).foldl addImport { e with functions }

end Entity

/-- The properties that say what an attribute is. -/
def kindKeys : List String := ["type", "model", "collection"]

/-- The properties that name a model. -/
def associationKeys : List String := ["model", "collection"]

namespace Attribute

/-- The properties of an attribute that say what it is and count as given. -/
def givenKinds (a : Attribute) : List String :=
  kindKeys.filter fun k => (a.properties.given? k).isSome

/-- The model that an association means. -/
def target (models : Models) (e : Entity) (a : Attribute) (key : String) (identity : Scalar) :
    Except Error Entity :=
  let found := match identity with
    | .string s => models.withIdentity? s
    | _ => none
  match found with
  | some model => .ok model
  | none =>
    .error (.showing identity fun shown =>
      .unknownModel (key == "collection") shown a.name e.describe (Assoc.keys models))

/-- Whether an identity is spelled without capitals. -/
def isLowerCase : Scalar → Bool
  | .string s => Text.lower s == s
  | _ => true

/-- Resolves the association under a key: the attribute with its model spelled out, and the import
that the entity needs. -/
def resolveAssociation (models : Models) (a : Attribute) (key : String) :
    Act Entity Attribute := do
  match a.properties.given? key with
  | none => return a
  | some identity =>
    let e ← Act.state
    let model ← Act.ofExcept (target models e a key identity)
    if !isLowerCase identity then
      Act.notify (.mixedCaseIdentity identity.display a.name e.describe)
    Act.modify fun e => e.addImport model.name
    return { a with properties := Assoc.put key (.string model.name) a.properties }

/-- Resolves an attribute. -/
def resolve (models : Models) (a : Attribute) : Act Entity Attribute := do
  let e ← Act.state
  let kinds := a.givenKinds
  if kinds.isEmpty && (a.properties.given? "through").isNone then
    Act.fail (.untypedAttribute a.name e.describe)
  else if 1 < kinds.length then
    Act.fail (.ambiguousAttribute a.name e.describe kinds)
  else
    match a.properties.given? "type" with
    | some type =>
      if (Error.attributeTypes.map Scalar.string).contains type then return a
      else Act.fail (.showing type fun shown => .unknownType shown a.name e.describe)
    | none =>
      let a ← resolveAssociation models a "model"
      resolveAssociation models a "collection"

end Attribute

namespace Entity

/-- The entity with the attribute at a place replaced. -/
def setAttribute (i : Nat) (a : Attribute) (e : Entity) : Entity :=
  { e with attributes := e.attributes.set i a }

/-- Resolves attributes in order, the first of them at place `i`. -/
def resolveAttributes (models : Models) (i : Nat) : List Attribute → Act Entity Unit
  | [] => pure ()
  | a :: rest => do
    let resolved ← a.resolve models
    Act.modify (setAttribute i resolved)
    resolveAttributes models (i + 1) rest

/-- Resolves the entity. -/
def resolve (models : Models) : Act Entity Unit := do
  Act.modify (resolveFunctions models)
  let e ← Act.state
  resolveAttributes models 0 e.attributes

end Entity

end Rigging
