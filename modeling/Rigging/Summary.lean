import Rigging.Entity.Basic

/-!
# Summaries

What a run says about its result: one line for the whole, and a few lines for every entity.
-/

namespace Rigging

/-- The summaries of a run; those of entities are by name. -/
structure Summaries where
  overview : String
  entities : List (String × String)
deriving DecidableEq, Repr

/-- A line that lists names, unless there are none. -/
def listLine (label : String) (names : List String) : List String :=
  if names.isEmpty then [] else ["  " ++ label ++ ": " ++ String.intercalate ", " names]

/-- The summary of an entity. -/
def Entity.summary (e : Entity) : String :=
  String.intercalate "\n"
    ([e.kind.title ++ " " ++ e.name ++ " at " ++ e.filename] ++
      listLine "Attributes" (e.attributes.map (·.name)) ++
      listLine "Methods" (e.functions.map (·.name)) ++ listLine "Imports" e.imports)

/-- The sum of a count over entities. -/
def total (count : Entity → Nat) (es : List Entity) : Nat :=
  (es.map count).foldl (· + ·) 0

/-- The summaries of a run that wrote `files` files into a directory. -/
def Summaries.ofRun (models services : List Entity) (directory : String) (files : Nat) :
    Summaries :=
  let all := models ++ services
  { overview :=
      "Generated " ++ toString files ++ " files in " ++ directory ++ ": " ++
        toString models.length ++ " models, " ++ toString services.length ++ " services, " ++
        toString (total (·.attributes.length) models) ++ " attributes, " ++
        toString (total (·.functions.length) all) ++ " methods"
    entities := Assoc.ofPairs (all.map fun e => (e.name, e.summary)) }

end Rigging
