import Rigging.Field
import Rigging.Path

/-!
# Configuration

The settings of a run.  They are read from named values; all unfit ones are reported together, in the
order of the settings.
-/

namespace Rigging.Project

/-- The settings of a run.  Both directories are absolute. -/
structure Config where
  root : String
  outDir : String
  writeJsconfig : Bool
  includeHooks : Bool
  hookMarker : String
  maxWorkers : Int
deriving DecidableEq, Repr

/-- The output directory when none is given. -/
def defaultOutDir : String := ".types"

/-- The marker package when none is given. -/
def defaultMarker : String := "marlinspike"

/-- How many modules are parsed at once when nothing is said. -/
def defaultWorkers : Int := 8

namespace Config

/-- The settings that fit together: directories are seen from the working directory, and the output
directory is by default one in the project. -/
def make (cwd root : String) (outDir : Option String) (writeJsconfig includeHooks : Bool)
    (hookMarker : String) (maxWorkers : Int) : Config :=
  let root := Path.absolute cwd root
  { root
    outDir :=
      match outDir with
      | some d => Path.absolute cwd d
      | none => Path.join root defaultOutDir
    writeJsconfig, includeHooks, hookMarker, maxWorkers }

/-- Reads the settings from named values. -/
def ofFields (cwd : String) (fields : List (String × Json)) : Except Error Config :=
  let root := Field.required fields "root" Field.text
  let outDir := Field.orDefault fields "out_dir" none Field.text?
  let jsconfig := Field.orDefault fields "write_jsconfig" true Field.bool
  let hooks := Field.orDefault fields "include_hooks" true Field.bool
  let marker := Field.orDefault fields "hook_marker" defaultMarker Field.text
  let workers := Field.orDefault fields "max_workers" defaultWorkers Field.positive
  match root, outDir, jsconfig, hooks, marker, workers with
  | .ok root, .ok outDir, .ok jsconfig, .ok hooks, .ok marker, .ok workers =>
    .ok (make cwd root outDir jsconfig hooks marker workers)
  | _, _, _, _, _, _ =>
    .error (.unfitFields
      (Field.fault? ["root"] root ++ Field.fault? ["out_dir"] outDir ++
        Field.fault? ["write_jsconfig"] jsconfig ++ Field.fault? ["include_hooks"] hooks ++
        Field.fault? ["hook_marker"] marker ++ Field.fault? ["max_workers"] workers))

end Config

end Rigging.Project
