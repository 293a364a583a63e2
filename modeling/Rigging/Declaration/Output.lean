import Rigging.FileTree
import Rigging.Path
import Rigging.Registry
import Rigging.Template.Files

/-!
# The output directory

A run replaces the output directory by a fresh one: the fixed files, the global declarations, and a
file for every model and service.  Nothing is taken back when writing fails half way.
-/

namespace Rigging

namespace Path

/-- A path below a directory.  Empty pieces and single points vanish, and an absolute path stands
for itself. -/
def child (directory name : String) : String :=
  let text := String.intercalate "/" (steps name)
  if isAbsolute name then leadingSlashes name ++ text else join directory text

end Path

namespace FileTree

/-- Does something to the tree that can fail. -/
def change (f : FileTree → Except SystemFault FileTree) : Act FileTree Unit := do
  let t ← Act.state
  match f t with
  | .ok t => Act.modify fun _ => t
  | .error fault => Act.fail (.system fault)

/-- Writes a text file.  The file is there, and empty, before its text is encoded. -/
def writeText (path text : String) : Act FileTree Unit := do
  let t ← Act.state
  match t.openFile path with
  | .error fault => Act.fail (.system fault)
  | .ok (p, opened) =>
    Act.modify fun _ => opened
    if Text.encodable text then Act.modify fun t => t.put p (.file text.toUTF8)
    else Act.fail (.system .unencodable)

/-- Removes a directory that is there; a file in its place cannot be removed so. -/
def clear (path : String) : Act FileTree Unit :=
  change fun t =>
    match t.locate path with
    | .ok p =>
      match t.get? p with
      | some .directory => .ok (t.remove p)
      | some (.file _) => .error .notADirectory
      | none => .ok t
    | .error .nameTooLong => .error .nameTooLong
    | .error _ => .ok t

/-- Makes a directory that is not there, with those above it that are missing. -/
def make (path : String) : Act FileTree Unit :=
  change fun t =>
    if path.toList.contains (Char.ofNat 0) then .error .nullInPath
    else t.makeDirectory (Path.components path)

end FileTree

namespace Declaration

/-- The directories of the output. -/
def outputDirectories : List String := ["sails", "models", "services"]

/-- The file of an entity: its path and its text. -/
def entityFile (directory area : String) (e : Entity) : String :=
  Path.child (Path.child directory area) (e.name ++ ".d.ts")

/-- Writes the files of entities and gives their paths. -/
def writeEntities (directory area : String) (es : List Entity) : Act FileTree (List String) :=
  Act.mapEach (fun e =>
    match e.declarations.linked with
    | none => Act.fail (.notLinked e.describe)
    | some text => do
      let path := entityFile directory area e
      FileTree.writeText path text
      return path) es

/-- Writes the fixed files and gives their paths. -/
def writeFixed (directory : String) : Act FileTree (List String) :=
  Act.mapEach (fun file => do
    let path := Path.child (Path.child directory "sails") file.1
    FileTree.writeText path file.2
    return path) Template.files

/-- Replaces the output directory and gives the paths of its files in the order of writing. -/
def writeOutput (directory : String) (r : Registry) (pool : Pool) :
    Act FileTree (List String) := do
  FileTree.clear directory
  Act.forEach (fun sub => FileTree.make (Path.child directory sub)) outputDirectories
  let fixed ← writeFixed directory
  let globalsPath := Path.child directory "globals.d.ts"
  FileTree.writeText globalsPath r.globals
  let models ← writeEntities directory "models" ((r.modelsIn pool).map Prod.snd)
  let services ← writeEntities directory "services" ((r.servicesIn pool).map Prod.snd)
  let written := fixed ++ globalsPath :: models ++ services
  Act.notify (.wroteFiles written.length directory)
  return written

end Declaration

end Rigging
