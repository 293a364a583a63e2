import Rigging.Act
import Rigging.Declaration.Member
import Rigging.Entity.Resolve

/-!
# Declarations of entities

An entity is declared in two steps.  Standing alone, a model gets the class of its instances and
every entity its own class; linked, the classes of the models it imports are put in front of these.
Only the entity's own imports are followed, not the imports of imported models.
-/

namespace Rigging

namespace Declaration

/-- Functions that are called by the framework alone and are no methods of a model's class. -/
def lifecycleHooks : List String :=
  ["beforeCreate", "afterCreate", "beforeUpdate", "afterUpdate", "beforeDestroy", "afterDestroy",
    "customToJSON"]

/-- The function that turns an instance into data. -/
def serializationHook : String := "customToJSON"

/-- The name of that function as a method of instances. -/
def serializationMethod : String := "toJSON?"

/-- The class of a model's instances. -/
def instanceClass (e : Entity) : Except Error String := do
  let serializer := e.functions.find? fun f => f.name == serializationHook
  let members ← instanceMembers e
  return classText ("export declare abstract class " ++ TypeExpr.instanceName e.name)
    (members ++ (serializer.map (methodAs serializationMethod)).toList)

/-- The own class of a model. -/
def modelClass (e : Entity) : String :=
  classText
    ("export declare abstract class " ++ e.name ++ " extends $ailsModel<" ++
      TypeExpr.instanceName e.name ++ ">")
    ((e.functions.filter fun f => !lifecycleHooks.contains f.name).map method)

/-- The own class of a service. -/
def serviceClass (e : Entity) : String :=
  classText ("export declare abstract class " ++ e.name) (e.functions.map method)

/-- The line that imports what every model's class extends. -/
def baseImport : String := "import \x7b $ailsModel \x7d from '../sails/model';"

end Declaration

namespace Entity

open Declaration

/-- Declares an entity standing alone.  A model whose instances cannot be declared is left as it
is. -/
def declareStandalone : Act Entity Unit := do
  let e ← Act.state
  if e.isModel then
    let instanceText ← Act.ofExcept (Declaration.instanceClass e)
    Act.modify fun e => { e with declarations := { e.declarations with
      instanceClass := some instanceText
      staticClass := some (modelClass e) } }
  else
    Act.modify fun e => { e with declarations := { e.declarations with
      staticClass := some (serviceClass e) } }

/-- The instance classes of imported models in the order of the imports, each once and without the
entity's own.  An unknown model ends the list; one without an instance class is left out. -/
def linkedInstances (models : Models) (e : Entity) (visited : List String) :
    List String → Act Entity (List String)
  | [] => pure []
  | name :: names =>
    if name == e.name || visited.contains name then linkedInstances models e visited names
    else
      match Assoc.get? name models with
      | none => do
        Act.notify (.unknownImport name e.describe)
        return []
      | some target =>
        match target.declarations.instanceClass with
        | none => do
          Act.notify (.missingInstance name e.describe)
          linkedInstances models e (name :: visited) names
        | some text => do
          let more ← linkedInstances models e (name :: visited) names
          return text :: more

/-- The instance classes that an entity links to. -/
def collectInstances (models : Models) : Act Entity (List String) := do
  let e ← Act.state
  linkedInstances models e [] e.imports

/-- The sections of an entity's file. -/
def sections (isModel : Bool) (linked : List String) (instanceText : Option String)
    (staticText : String) : List String :=
  (if isModel then [baseImport] else []) ++
    (if linked.isEmpty then []
      else ["// Referenced instance classes...\n" ++ String.intercalate "\n\n" linked]) ++
    (instanceText.map fun text => "// Main instance class...\n" ++ text).toList ++
    ["// Main static class...\n" ++ staticText]

/-- The whole file of an entity from its sections. -/
def fileText (parts : List String) : String :=
  String.intercalate "\n\n" parts ++ "\n"

/-- Writes the linked declarations of an entity that has been declared standing alone. -/
def declareLinked (models : Models) : Act Entity Unit := do
  let e ← Act.state
  match e.declarations.staticClass with
  | none => Act.fail (.notStandalone e.describe)
  | some staticText =>
    let linked ← collectInstances models
    let instanceText ←
      if e.isModel then
        match e.declarations.instanceClass with
        | some text => pure (some text)
        | none => Act.fail (.system .missingText)
      else pure none
    let text := fileText (sections e.isModel linked instanceText staticText)
    Act.modify fun e => { e with declarations := { e.declarations with linked := some text } }

end Entity

end Rigging
