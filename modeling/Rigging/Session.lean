import Rigging.Declaration.Output
import Rigging.Entity.Extract
import Rigging.Registry

/-!
# Sessions

A session is a pool of entities, a registry over it, and a file tree, changed step by step.  A step
that fails leaves what it changed before it failed.
-/

namespace Rigging

/-- The state of a session. -/
structure Session where
  pool : Pool
  registry : Registry
  tree : FileTree

/-- The steps that change a session.  An entity is meant by its place in the pool; a step that means
a place behind the last entity does nothing. -/
inductive Session.Step where
  | addText (name filename : String) (kind : EntityKind) (owner text : String)
  | addEntity (entity : Entity)
  | buildRegistry
  | register (place : Nat) (key : Option String)
  | unregister (key : String)
  | addImport (place : Nat) (model : String)
  | resolve (place : Nat)
  | declareStandalone (place : Nat)
  | declareLinked (place : Nat)
  | build
  | writeOutput (directory : String)

namespace Session

/-- The session in which nothing has been done. -/
def start : Session := ⟨[], .empty, .empty⟩

/-- The place of the newest entity with a name, among entities from place `i` on. -/
def placeFrom? (name : String) (i : Nat) : Pool → Option Nat
  | [] => none
  | e :: rest =>
    match placeFrom? name (i + 1) rest with
    | some j => some j
    | none => if e.name == name then some i else none

/-- The place of the newest entity with a name, or the place behind the last entity. -/
def placeOf (s : Session) (name : String) : Nat :=
  (placeFrom? name 0 s.pool).getD s.pool.length

/-- The models with the names they are known under. -/
def models (s : Session) : Models :=
  s.registry.modelsIn s.pool

/-- The services with the names they are known under. -/
def services (s : Session) : List (String × Entity) :=
  s.registry.servicesIn s.pool

/-- Does something to the pool. -/
def onPool {α : Type} (a : Act Pool α) : Act Session α :=
  Act.within (·.pool) (fun pool s => { s with pool }) a

/-- Does something to the entity at a place. -/
def onEntity (i : Nat) (a : Models → Act Entity Unit) : Act Session Unit := do
  let s ← Act.state
  onPool (Pool.atPlace i (a s.models))

/-- Puts an entity into the pool. -/
def add (e : Entity) : Act Session Unit :=
  Act.modify fun s => { s with pool := s.pool ++ [e] }

/-- Names the entity at a place in the registry, under its own name if no key is given. -/
def registerAs (s : Session) (i : Nat) (key : Option String) : Session :=
  match s.pool[i]? with
  | some e => { s with registry := s.registry.add e.kind (key.getD e.name) i }
  | none => s

/-- Does one step. -/
def perform : Step → Act Session Unit
  | .addText name filename kind owner text => do
    let (e, _) ← Act.onOwn () (Entity.ofText name filename kind owner text)
    add e
  | .addEntity e => add e
  | .buildRegistry => do
    let s ← Act.state
    let registry ← Act.ofExcept (Registry.ofPool s.pool)
    Act.modify fun s => { s with registry }
  | .register i key => Act.modify fun s => s.registerAs i key
  | .unregister key => Act.modify fun s => { s with registry := s.registry.erase key }
  | .addImport i model => onEntity i fun _ => Act.modify fun e => e.addImport model
  | .resolve i => onEntity i Entity.resolve
  | .declareStandalone i => onEntity i fun _ => Entity.declareStandalone
  | .declareLinked i => onEntity i Entity.declareLinked
  | .build => do
    let s ← Act.state
    onPool (Pool.build s.registry)
  | .writeOutput directory => do
    let s ← Act.state
    Act.within (·.tree) (fun tree s => { s with tree }) do
      let _ ← Declaration.writeOutput directory s.registry s.pool

/-- The instance classes that the entity at a place links to; the entity stays as it is. -/
def collect (i : Nat) : Act Session (List String) := do
  let s ← Act.state
  match s.pool[i]? with
  | some e => do
    let (texts, _) ← Act.onOwn e (Entity.collectInstances s.models)
    return texts
  | none => return []

end Session

end Rigging
