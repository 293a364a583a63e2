import Rigging.Error
import Rigging.Text.Surrogate

/-!
# File trees

A tree of directories and files, each known by the components of its path from the root.  There are
no links, so a path leads through directories alone and a step up leads to the directory above.
-/

namespace Rigging

/-- What a path leads to. -/
inductive FileNode where
  | directory
  | file (content : ByteArray)

/-- A file tree.  The root is always there and is not listed. -/
structure FileTree where
  entries : List (List String × FileNode)

namespace FileTree

/-- The tree with nothing in it. -/
def empty : FileTree := ⟨[]⟩

/-- What stands at a path. -/
def get? (t : FileTree) (p : List String) : Option FileNode :=
  if p.isEmpty then some .directory else t.entries.lookup p

/-- Whether something stands at a path. -/
def contains (t : FileTree) (p : List String) : Bool :=
  (t.get? p).isSome

/-- Whether a directory stands at a path. -/
def isDirectory (t : FileTree) (p : List String) : Bool :=
  match t.get? p with
  | some .directory => true
  | _ => false

/-- The content of the file at a path. -/
def content? (t : FileTree) (p : List String) : Option ByteArray :=
  match t.get? p with
  | some (.file content) => some content
  | _ => none

/-- Puts something at a path, in place of what stood there. -/
def put (t : FileTree) (p : List String) (n : FileNode) : FileTree :=
  if t.contains p then ⟨t.entries.map fun e => if e.1 = p then (p, n) else e⟩
  else ⟨t.entries ++ [(p, n)]⟩

/-- The tree without a path and everything below it. -/
def remove (t : FileTree) (p : List String) : FileTree :=
  ⟨t.entries.filter fun e => !p.isPrefixOf e.1⟩

/-- The names in a directory. -/
def names (t : FileTree) (p : List String) : List String :=
  t.entries.filterMap fun e =>
    match e.1.getLast? with
    | some name => if e.1.dropLast = p then some name else none
    | none => none

/-- The longest name that a component can have, in bytes. -/
def longestName : Nat := 255

/-- The longest text that a path can have, in bytes. -/
def longestPath : Nat := 4095

/-- Follows components from a directory, given as a stack.  Everything but the last one has to be a
directory. -/
def follow (t : FileTree) (stack : List String) : List String → Except SystemFault (List String)
  | [] => .ok stack.reverse
  | c :: cs =>
    if c = "" then follow t stack cs
    else if !t.isDirectory stack.reverse then
      .error (if t.contains stack.reverse then .notADirectory else .noSuchFile)
    else if c = "." then follow t stack cs
    else if c = ".." then follow t stack.tail cs
    else if longestName < c.utf8ByteSize then .error .nameTooLong
    else follow t (c :: stack) cs

/-- The place that the text of an absolute path leads to; nothing need stand there. -/
def locate (t : FileTree) (path : String) : Except SystemFault (List String) :=
  if path.toList.contains (Char.ofNat 0) then .error .nullInPath
  else if !Text.encodable path then .error .unencodable
  else if longestPath < path.utf8ByteSize then .error .nameTooLong
  else t.follow [] ((path.toList.splitOnP (· == '/')).map String.ofList)

/-- Whether a path leads to a directory. -/
def isDirectoryAt (t : FileTree) (path : String) : Bool :=
  match t.locate path with
  | .ok p => t.isDirectory p
  | .error _ => false

/-- The content of the file that a path leads to. -/
def contentAt? (t : FileTree) (path : String) : Option ByteArray :=
  match t.locate path with
  | .ok p => t.content? p
  | .error _ => none

/-- Whether a path leads to a file. -/
def isFileAt (t : FileTree) (path : String) : Bool :=
  (t.contentAt? path).isSome

/-- Whether a path leads to anything. -/
def existsAt (t : FileTree) (path : String) : Bool :=
  match t.locate path with
  | .ok p => t.contains p
  | .error _ => false

/-- Makes a directory and those above it that are missing, from the root down. -/
def makeDirectories (t : FileTree) (above : List String) : List String → Except SystemFault FileTree
  | [] => .ok t
  | c :: cs =>
    let here := above ++ [c]
    match t.get? here with
    | some .directory => makeDirectories t here cs
    | some (.file _) => .error (if cs.isEmpty then .fileExists else .notADirectory)
    | none => makeDirectories (t.put here .directory) here cs

/-- Makes a directory that must not be there yet, with those above it that are missing. -/
def makeDirectory (t : FileTree) (p : List String) : Except SystemFault FileTree :=
  if t.isDirectory p then .error .fileExists else t.makeDirectories [] p

/-- Opens a file for writing: its place, with the tree in which the file is there and empty. -/
def openFile (t : FileTree) (path : String) : Except SystemFault (List String × FileTree) := do
  let p ← t.locate path
  if t.isDirectory p then .error .isADirectory
  else if !t.isDirectory p.dropLast then
    .error (if t.contains p.dropLast then .notADirectory else .noSuchFile)
  else .ok (p, t.put p (.file ByteArray.empty))

end FileTree

end Rigging
