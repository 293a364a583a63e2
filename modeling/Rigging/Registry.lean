import Rigging.Declaration.Globals
import Rigging.Declaration.Linked
import Rigging.Entity.Resolve

/-!
# Registries

All entities of a run stand in a pool.  A registry names some of them as models and some as
services; it refers to an entity by its place in the pool, so that whatever is done to the entity is
seen under every name.  `build` takes a registry's entities through resolution and both steps of
declaration: linking starts when every entity stands alone.
-/

namespace Rigging

/-- The entities of a run. -/
abbrev Pool := List Entity

/-- Names for models and services, each with the place of an entity in the pool. -/
structure Registry where
  models : List (String × Nat)
  services : List (String × Nat)
deriving DecidableEq, Repr, Inhabited

namespace Registry

/-- The registry with no names. -/
def empty : Registry := ⟨[], []⟩

/-- Names an entity at a place in the part for its kind. -/
def add (r : Registry) (kind : EntityKind) (name : String) (place : Nat) : Registry :=
  match kind with
  | .model => { r with models := Assoc.put name place r.models }
  | .service => { r with services := Assoc.put name place r.services }

/-- The registry without a name. -/
def erase (r : Registry) (name : String) : Registry :=
  ⟨Assoc.erase name r.models, Assoc.erase name r.services⟩

/-- The places of all named entities, models first. -/
def places (r : Registry) : List Nat :=
  (r.models ++ r.services).map Prod.snd

/-- Names with the entities they stand for. -/
def entitiesOf (pool : Pool) (names : List (String × Nat)) : List (String × Entity) :=
  names.filterMap fun n => pool[n.2]?.map fun e => (n.1, e)

/-- The models with the names they are known under. -/
def modelsIn (r : Registry) (pool : Pool) : Models :=
  entitiesOf pool r.models

/-- The services with the names they are known under. -/
def servicesIn (r : Registry) (pool : Pool) : List (String × Entity) :=
  entitiesOf pool r.services

/-- Names every entity from place `i` on.  Two entities whose names differ in case at most cannot
both be named; `seen` holds the ones so far by the lower-case form of their names. -/
def addAll (r : Registry) (seen : List (String × Entity)) (i : Nat) :
    List Entity → Except Error Registry
  | [] => .ok r
  | e :: rest =>
    let identity := Text.lower e.name
    match Assoc.get? identity seen with
    | some other =>
      .error (.duplicateEntity e.kind e.name e.filename e.owner other.filename other.owner)
    | none => addAll (r.add e.kind e.name i) ((identity, e) :: seen) (i + 1) rest

/-- The registry of all entities of a pool under their own names. -/
def ofPool (pool : Pool) : Except Error Registry :=
  empty.addAll [] 0 pool

/-- The global declarations of a registry. -/
def globals (r : Registry) : String :=
  Declaration.globals (Assoc.keys r.models) (Assoc.keys r.services)

end Registry

namespace Pool

/-- Does something to the entity at a place. -/
def atPlace (i : Nat) (a : Act Entity Unit) : Act Pool Unit := fun pool =>
  match pool[i]? with
  | some e =>
    let inner := a e
    ⟨inner.result, pool.set i inner.state, inner.notices⟩
  | none => ⟨.ok (), pool, []⟩

/-- Resolves the entity at a place and declares it standing alone. -/
def prepareAt (r : Registry) (i : Nat) : Act Pool Unit := do
  let pool ← Act.state
  atPlace i (Entity.resolve (r.modelsIn pool))
  atPlace i Entity.declareStandalone

/-- Links the entity at a place. -/
def linkAt (r : Registry) (i : Nat) : Act Pool Unit := do
  let pool ← Act.state
  atPlace i (Entity.declareLinked (r.modelsIn pool))

/-- Declares every entity of a registry. -/
def build (r : Registry) : Act Pool Unit := do
  Act.forEach (prepareAt r) r.places
  Act.forEach (linkAt r) r.places

end Pool

end Rigging
