import Rigging.Entity.Extract
import Rigging.FileTree
import Rigging.Path
import Rigging.Text.Quoted
import Rigging.Text.Utf8

/-!
# Source modules

The modules of a project are the JavaScript files below two directories, one for models and one for
services.  They are found in a fixed order: the files of a directory by name, then its directories
by name.
-/

namespace Rigging.Project

/-- A source module. -/
structure Source where
  path : String
  relativePath : String
  name : String
  kind : EntityKind
  owner : String
deriving DecidableEq, Repr

/-- The directory of a kind's modules. -/
def sourceDirectory : EntityKind → String
  | .model => "api/models"
  | .service => "api/services"

/-- Directories that hold no modules. -/
def ignoredDirectories : List String := [".git", "node_modules", "__pycache__"]

/-- The ending of a module's name. -/
def sourceExtension : String := ".js"

/-- The name of the entity in a file. -/
def entityName (path : String) : String :=
  Path.stem (Path.base path)

/-- Names in order. -/
def sorted (names : List String) : List String :=
  names.mergeSort fun a b => decide (a ≤ b)

/-- The paths of the modules below a directory, given as text and as components.  A directory whose
text is too long is not looked into. -/
def modulesBelow (t : FileTree) (fuel : Nat) (text : String) (place : List String) : List String :=
  match fuel with
  | 0 => []
  | fuel + 1 =>
    if FileTree.longestPath < text.utf8ByteSize then []
    else
      let names := sorted (t.names place)
      let files := names.filter fun n =>
        !t.isDirectory (place ++ [n]) && sourceExtension.toList.isSuffixOf n.toList
      let directories := names.filter fun n =>
        t.isDirectory (place ++ [n]) && !ignoredDirectories.contains n
      files.map (Path.join text) ++
        directories.flatMap fun n => modulesBelow t fuel (Path.join text n) (place ++ [n])

/-- The modules of one kind in a project. -/
def scanKind (t : FileTree) (root owner : String) (kind : EntityKind) : List Source :=
  let directory := Path.join root (sourceDirectory kind)
  match t.locate directory with
  | .error _ => []
  | .ok place =>
    if t.isDirectory place then
      (modulesBelow t (t.entries.length + 1) directory place).map fun path =>
        ⟨path, Path.relative path root, entityName path, kind, owner⟩
    else []

/-- The modules of a project, models first. -/
def scan (t : FileTree) (root owner : String) : List Source :=
  scanKind t root owner .model ++ scanKind t root owner .service

/-- Why a module that has been found cannot be opened. -/
def tooLong (path : String) : String :=
  "[Errno 36] File name too long: " ++ Text.quoted path

/-- Loads the entity of a module. -/
def load (source : Source) : Act FileTree Entity := do
  let t ← Act.state
  match t.contentAt? source.path with
  | none => Act.fail (.unreadableModule source.kind source.path (tooLong source.path))
  | some content =>
    match Text.Utf8.decode content with
    | .error fault => Act.fail (.unreadableModule source.kind source.path fault.message)
    | .ok text =>
      let (entity, _) ← Act.onOwn ()
        (Entity.ofSource source.name source.relativePath source.kind source.owner text)
      return entity

end Rigging.Project
