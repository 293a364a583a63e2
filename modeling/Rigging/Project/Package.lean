import Rigging.Act
import Rigging.FileTree
import Rigging.Json.Reader
import Rigging.Path
import Rigging.Text.Utf8

/-!
# Package files

Every project and every installed package describes itself in a file: a JSON object with a name,
lists of dependencies, and what the package is for the framework.
-/

namespace Rigging.Project

/-- The name of package files. -/
def packageFile : String := "package.json"

/-- The members of a package file. -/
abbrev Package := List (String × Json)

namespace Package

/-- The value under a key, null where there is none. -/
def get (pkg : Package) (key : String) : Json :=
  (Assoc.get? key pkg).getD .null

/-- The names under a key that holds an object. -/
def names (pkg : Package) (key : String) : List String :=
  Assoc.keys (pkg.get key).members

/-- The packages that the package needs. -/
def dependencies (pkg : Package) : List String := pkg.names "dependencies"

/-- The packages that its developers need. -/
def devDependencies (pkg : Package) : List String := pkg.names "devDependencies"

/-- Reads the content of a package file; the path is for messages. -/
def ofContent (path : String) (content : ByteArray) : Except Error Package :=
  match Text.Utf8.decode content with
  | .error fault => .error (.unreadablePackage path fault.message)
  | .ok text =>
    match Json.parse text with
    | .error fault => .error (.unreadablePackage path (fault.message text.toList))
    | .ok (.object members) => .ok members
    | .ok _ => .error (.packageNotObject path)

/-- Reads the package file of a directory. -/
def read (t : FileTree) (directory : String) : Except Error Package :=
  let path := Path.join directory packageFile
  match t.contentAt? path with
  | none => .error (.missingPackage path)
  | some content => ofContent path content

end Package

end Rigging.Project
