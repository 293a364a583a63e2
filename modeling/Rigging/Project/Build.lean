import Rigging.Declaration.Output
import Rigging.Json.Writer
import Rigging.Project.Config
import Rigging.Project.Hook
import Rigging.Project.Source
import Rigging.Summary

/-!
# Runs

A run checks where its output goes, collects the modules of a project and its type hooks, loads and
declares their entities, and writes the result.  Nothing is written before everything is declared.
Modules are loaded at the same time; a `Schedule` says in which order they are finished.
-/

namespace Rigging.Project

/-- What a run has made. -/
structure Report where
  root : String
  outDir : String
  models : List String
  services : List String
  files : List String
  summaries : Summaries
deriving DecidableEq, Repr

/-- Refuses paths that the file system cannot take. -/
def checkPath (path : String) : Except Error Unit :=
  if path.toList.contains (Char.ofNat 0) then .error (.system .nullInPath)
  else if !Text.encodable path then .error (.system .unencodable)
  else .ok ()

/-- Refuses an output directory that holds the project, since it is cleared on every run. -/
def checkOutDir (cwd root outDir : String) : Except Error Unit := do
  checkPath root
  checkPath outDir
  if Path.holds (Path.real cwd outDir) (Path.real cwd root) then
    .error (.outputHoldsProject outDir root)
  else .ok ()

/-- The modules of a project and its type hooks. -/
def collect (config : Config) : Act FileTree (List Source) := do
  let t ← Act.state
  if !t.isDirectoryAt config.root then Act.fail (.invalidRoot config.root)
  else
    let hooks ← discover config.root config.hookMarker config.includeHooks
    let own := scan t config.root Entity.rootOwner
    let hooked ← Act.mapEach (fun hook : Hook => do
      Act.notify (.includingHook hook.name)
      return scan t hook.path hook.name) hooks
    let sources := own ++ hooked.flatten
    Act.notify (.foundModules sources.length)
    return sources

/-- The order in which modules are finished that are loaded at the same time, given by their places;
for every number of modules, each place once. -/
structure Schedule where
  order : Nat → List Nat
  perm : ∀ n, (order n).Perm (List.range n)

/-- The schedule by which modules are finished one after the other. -/
def Schedule.inTurn : Schedule := ⟨List.range, fun _ => .refl _⟩

/-- Loads modules in the order in which they are finished, given by their places.  The entity of a
module is put into the slot at the module's place, and the first module that fails ends the work. -/
def fillSlots (sources : List Source) (slots : List (Option Entity)) :
    List Nat → Act FileTree (List (Option Entity))
  | [] => return slots
  | i :: order =>
    match sources[i]? with
    | none => fillSlots sources slots order
    | some source => do
      let entity ← load source
      fillSlots sources (slots.set i (some entity)) order

/-- Loads modules that are finished in some order; the entities come in the order of the modules. -/
def loadAll (order : List Nat) (sources : List Source) : Act FileTree Pool := do
  let slots ← fillSlots sources (List.replicate sources.length none) order
  return slots.filterMap id

/-- Loads and declares every entity of a project.  Nothing is written. -/
def prepare (schedule : Schedule) (config : Config) : Act FileTree (Registry × Pool) := do
  let sources ← collect config
  let pool ← loadAll (schedule.order sources.length) sources
  let registry ← Act.ofExcept (Registry.ofPool pool)
  let (_, built) ← Act.onOwn pool (Pool.build registry)
  return (registry, built)

/-- The editor's configuration file. -/
def jsconfigFile : String := "jsconfig.json"

/-- The content of the editor's configuration. -/
def jsconfig (relativeOut : String) : Json :=
  .object [
    ("compilerOptions", .object [("target", .string "es2017")]),
    ("include", .strings ["./" ++ relativeOut ++ "/globals.d.ts", "**/*.js"]),
    ("exclude", .strings ["node_modules"])]

/-- Writes the editor's configuration unless there is one, and gives its path. -/
def writeJsconfig (cwd root outDir : String) : Act FileTree (Option String) := do
  let t ← Act.state
  let path := Path.join root jsconfigFile
  if t.existsAt path then return none
  else
    let relativeOut := Path.relative (Path.absolute cwd outDir) (Path.absolute cwd root)
    FileTree.writeText path ((jsconfig relativeOut).write .config)
    Act.notify (.createdFile path)
    return some path

/-- Runs the generator. -/
def generate (schedule : Schedule) (cwd : String) (config : Config) : Act FileTree Report := do
  Act.ofExcept (checkOutDir cwd config.root config.outDir)
  let (registry, pool) ← prepare schedule config
  let files ← Declaration.writeOutput config.outDir registry pool
  if config.writeJsconfig then
    let _ ← writeJsconfig cwd config.root config.outDir
  return {
    root := config.root
    outDir := config.outDir
    models := Assoc.keys registry.models
    services := Assoc.keys registry.services
    files
    summaries := Summaries.ofRun ((registry.modelsIn pool).map Prod.snd)
      ((registry.servicesIn pool).map Prod.snd) config.outDir files.length }

end Rigging.Project
