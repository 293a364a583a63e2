import Rigging.CommandLine.Options
import Rigging.Json.Writer
import Rigging.Project.Build

/-!
# The commands

`generate` runs the generator on a project, `serve` starts the request server.  A command line leads
to one of them, to a request for help, or to an error; a command leads to an exit code.
-/

namespace Rigging.CommandLine

/-- The name of the program. -/
def program : String := "sails-typegen"

/-- The option for help, which every reader has. -/
def helpOption : OptionSpec := ⟨["-h", "--help"], .help⟩

/-- The whole command line. -/
def mainGrammar : Grammar :=
  ⟨program, [helpOption, ⟨["-v", "--verbose"], .flag⟩], .command "cmd" ["generate", "serve"]⟩

/-- The arguments of `generate`. -/
def generateGrammar : Grammar :=
  ⟨program ++ " generate",
    [helpOption, ⟨["--out"], .text⟩, ⟨["--no-jsconfig"], .flag⟩, ⟨["--no-hooks"], .flag⟩,
      ⟨["--workers"], .number⟩, ⟨["--json"], .flag⟩],
    .argument⟩

/-- The arguments of `serve`. -/
def serveGrammar : Grammar :=
  ⟨program ++ " serve",
    [helpOption, ⟨["--host"], .text⟩, ⟨["--port"], .number⟩, ⟨["--reload"], .flag⟩], .none⟩

/-- A command with its settings.  Those of `generate` are values still to be checked. -/
inductive Command where
  | generate (settings : List (String × Json)) (json : Bool)
  | serve (host socket : Json) (reload : Bool)

/-- Whether a flag was given. -/
def given (r : Reading) (name : String) : Bool :=
  (Assoc.get? name r.values).isSome

/-- The value of an option, or another one when it was not given. -/
def valueOr (r : Reading) (name : String) (default : Json) : Json :=
  (Assoc.get? name r.values).getD default

/-- The settings of `generate`; the project is by default the working directory. -/
def generateCommand (cwd : String) (r : Reading) : Command :=
  .generate
    [("root", .string ((r.placed.bind List.head?).getD cwd)),
      ("out_dir", valueOr r "--out" .null),
      ("write_jsconfig", .bool !(given r "--no-jsconfig")),
      ("include_hooks", .bool !(given r "--no-hooks")),
      ("max_workers", valueOr r "--workers" (.int Project.defaultWorkers))]
    (given r "--json")

/-- The settings of `serve`. -/
def serveCommand (r : Reading) : Command :=
  .serve (valueOr r "--host" (.string "127.0.0.1")) (valueOr r "--port" (.int 8000))
    (given r "--reload")

/-- Reads a command line: the command, and whether more notices are wanted. -/
def parse (cwd : String) (args : List String) : Except Stop (Command × Bool) := do
  let outer ← mainGrammar.read args
  let words := outer.placed.getD []
  let isServe := words.head? == some "serve"
  let inner ← (if isServe then serveGrammar else generateGrammar).read (words.drop 1)
  let extras := outer.extras ++ inner.extras
  if extras.isEmpty then
    return (if isServe then serveCommand inner else generateCommand cwd inner,
      given outer "--verbose")
  else mainGrammar.stop ("unrecognized arguments: " ++ String.intercalate " " extras)

/-- The line that ends an error's message. -/
def errorLine (program message : String) : String :=
  program ++ ": error: " ++ message

/-- How a command line ended: its exit code, what it printed, and the server it started. -/
structure Exit where
  code : Nat
  output : String
  complaint : Option String
  served : Option (Json × Json × Bool)

/-- An end with nothing but a code. -/
def Exit.silent (code : Nat) : Exit := ⟨code, "", none, none⟩

/-- The report of a run as JSON. -/
def reportJson (r : Project.Report) : Json :=
  .object [
    ("root", .string r.root),
    ("out_dir", .string r.outDir),
    ("models", .strings r.models),
    ("services", .strings r.services),
    ("files", .strings r.files),
    ("summaries", .object [
      ("global_overview", .string r.summaries.overview),
      ("per_entity", .object (r.summaries.entities.map fun e => (e.1, .string e.2)))])]

/-- Runs the generator and tells about it; `seconds` is how long it took, as text. -/
def runGenerate (schedule : Project.Schedule) (cwd seconds : String)
    (settings : List (String × Json)) (json : Bool) : Act FileTree Exit := do
  let config ← Act.ofExcept (Project.Config.ofFields cwd settings)
  Act.notify (.processing config.root)
  match ← Act.attempt (Project.generate schedule cwd config) with
  | .error e =>
    if e.isOwn then
      Act.notify (.failed e.message)
      return .silent 1
    else Act.fail e
  | .ok report =>
    Act.forEach (fun s => Act.notify (.entitySummary s.2)) report.summaries.entities
    Act.notify (.overview report.summaries.overview)
    Act.notify (.finished seconds)
    return { Exit.silent 0 with
      output := if json then (reportJson report).write .report ++ "\n" else "" }

/-- Runs a command line. -/
def run (schedule : Project.Schedule) (cwd seconds : String) (args : List String) :
    Act FileTree Exit :=
  match parse cwd args with
  | .error .help => return .silent 0
  | .error (.error program message) =>
    return { Exit.silent 2 with complaint := some (errorLine program message) }
  | .ok (.serve host socket reload, _) =>
    return { Exit.silent 0 with served := some (host, socket, reload) }
  | .ok (.generate settings json, _) => runGenerate schedule cwd seconds settings json

end Rigging.CommandLine
