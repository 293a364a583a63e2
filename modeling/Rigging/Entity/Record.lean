import Rigging.Entity.Basic
import Rigging.Field

/-!
# Records of entities

The three fields that every record of an entity must have.
-/

namespace Rigging.Entity

/-- A kind, given by its word. -/
def kindField : Json → Except FieldFault EntityKind
  | .string w =>
    match EntityKind.ofWord? w with
    | some kind => .ok kind
    | none => .error .unknownChoice
  | _ => .error .unknownChoice

/-- The entity that a record's required fields describe, with nothing else known of it. -/
def ofRecord (owner : String) (fields : List (String × Json)) : Except Error Entity :=
  let name := Field.required fields "name" Field.text
  let filename := Field.required fields "filename" Field.text
  let kind := Field.required fields "kind" kindField
  match name, filename, kind with
  | .ok name, .ok filename, .ok kind => .ok (Entity.blank name filename kind owner)
  | _, _, _ =>
    .error (.unfitFields (Field.fault? ["name"] name ++ Field.fault? ["filename"] filename ++
      Field.fault? ["kind"] kind))

end Rigging.Entity
