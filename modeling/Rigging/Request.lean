import Rigging.Project.Build

/-!
# Requests

The two requests of the server.  Both name a project directory; one generates its declarations, the
other shows them without writing.  An output directory is seen from the project and has to lie in
it.
-/

namespace Rigging.Request

/-- The body of a request. -/
structure Body where
  rootPath : String
  outDir : Option String
  writeJsconfig : Bool
deriving DecidableEq, Repr

/-- The answer to a request. -/
inductive Response (α : Type) where
  | ok (value : α)
  /-- The request asks for something that is not allowed. -/
  | refused (detail : String)
  /-- The project could not be handled. -/
  | failed (detail : String)
  /-- The body does not fit. -/
  | unfit (faults : List (FieldFault × List String))

/-- The status code of an answer. -/
def Response.status {α : Type} : Response α → Nat
  | .ok _ => 200
  | .refused _ => 400
  | .failed _ => 422
  | .unfit _ => 422

/-- Reads the body of a request. -/
def Body.ofJson (v : Json) : Except (List (FieldFault × List String)) Body :=
  match v with
  | .null => .error [(.missing, ["body"])]
  | .object fields =>
    let root := Field.required fields "root_path" Field.text
    let outDir := Field.orDefault fields "out_dir" none Field.text?
    let jsconfig := Field.orDefault fields "write_jsconfig" false Field.bool
    match root, outDir, jsconfig with
    | .ok rootPath, .ok outDir, .ok writeJsconfig => .ok { rootPath, outDir, writeJsconfig }
    | _, _, _ =>
      .error (Field.fault? ["body", "root_path"] root ++
        Field.fault? ["body", "out_dir"] outDir ++
        Field.fault? ["body", "write_jsconfig"] jsconfig)
  | _ => .error [(.notRecord, ["body"])]

/-- The settings that a request asks for, or why it is refused. -/
def settings (cwd : String) (t : FileTree) (body : Body) :
    Except Error (Except String Project.Config) :=
  let root := Path.absolute cwd body.rootPath
  let config (outDir : Option String) : Project.Config :=
    Project.Config.make cwd root outDir body.writeJsconfig true Project.defaultMarker
      Project.defaultWorkers
  if !t.isDirectoryAt root then .ok (.error ("Invalid root_path: " ++ root))
  else
    match body.outDir with
    | none => .ok (.ok (config none))
    | some given => do
      Project.checkPath given
      let outDir := Path.real cwd (Path.join root given)
      let realRoot := Path.real cwd root
      if outDir = realRoot || !Path.holds realRoot outDir then
        .ok (.error ("Invalid out_dir: " ++ given))
      else .ok (.ok (config (some outDir)))

/-- Answers a request by an action on the settings it asks for. -/
def answer {α : Type} (cwd : String) (v : Json) (action : Project.Config → Act FileTree α) :
    Act FileTree (Response α) := do
  match Body.ofJson v with
  | .error faults => return .unfit faults
  | .ok body =>
    let t ← Act.state
    match ← Act.ofExcept (settings cwd t body) with
    | .error detail => return .refused detail
    | .ok config =>
      match ← Act.attempt (action config) with
      | .ok a => return .ok a
      | .error e => if e.isOwn then return .failed e.message else Act.fail e

/-- The declarations of a project by name, models and services. -/
structure Preview where
  models : List (String × String)
  services : List (String × String)
deriving DecidableEq, Repr

/-- The linked declarations of named entities. -/
def linkedTexts (es : List (String × Entity)) : List (String × String) :=
  es.map fun e => (e.1, e.2.declarations.linked.getD "")

/-- Answers a request to generate. -/
def generate (schedule : Project.Schedule) (cwd : String) (body : Json) :
    Act FileTree (Response Project.Report) :=
  answer cwd body (Project.generate schedule cwd)

/-- Answers a request to preview. -/
def preview (schedule : Project.Schedule) (cwd : String) (body : Json) :
    Act FileTree (Response Preview) :=
  answer cwd body fun config => do
    let (registry, pool) ← Project.prepare schedule config
    return ⟨linkedTexts (registry.modelsIn pool), linkedTexts (registry.servicesIn pool)⟩

end Rigging.Request
