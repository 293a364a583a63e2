import Rigging.CommandLine.Command
import Rigging.Console
import Std.Data.HashMap

/-!
# The program

The outer layer.  It takes a picture of the directories that a command can reach, runs the command
on the picture, shows the notices, and carries the changes back to the disk.
-/

namespace Rigging.Program

/-- A file tree as it is listed. -/
abbrev Listing := List (List String × FileNode)

/-- How deep a picture goes below the directory it starts from. -/
def depth : Nat := 64

/-- Whether a command can ask for the content of a file with this name.  Of other files it is enough
to know that they are there. -/
def isRead (name : String) : Bool :=
  name.endsWith ".js" || name.endsWith ".json"

/-- What stands at a place on the disk. -/
def nodeAt (place : List String) : IO (Option FileNode) := do
  let path := (← IO.currentDir) / Path.ofComponents place
  if ← path.isDir then return some .directory
  else if ← path.pathExists then
    if isRead (place.getLast?.getD "") then return some (.file (← IO.FS.readBinFile path))
    else return some (.file ByteArray.empty)
  else return none

/-- Everything below a directory on the disk. -/
def below (place : List String) : Nat → IO Listing
  | 0 => return []
  | depth + 1 => do
    let path := (← IO.currentDir) / Path.ofComponents place
    let mut found : Array Listing := #[]
    for item in ← path.readDir do
      let here := place ++ [item.fileName]
      match ← nodeAt here with
      | some .directory => found := found.push ((here, .directory) :: (← below here depth))
      | some node => found := found.push [(here, node)]
      | none => pure ()
    return found.toList.flatten

/-- The places above a place and the place itself, from the root down. -/
def line (place : List String) : List (List String) :=
  (List.range place.length).map fun n => place.take (n + 1)

/-- The picture of a place: what leads to it, and everything below it. -/
def picture (place : List String) : IO Listing := do
  let mut found : Array (List String × FileNode) := #[]
  for step in line place do
    if let some node ← nodeAt step then found := found.push (step, node)
  match ← nodeAt place with
  | some .directory => return found.toList ++ (← below place depth)
  | _ => return found.toList

/-- The places that a command line can reach. -/
def reach (cwd : String) (args : List String) : List String :=
  match CommandLine.parse cwd args with
  | .ok (.generate settings _, _) =>
    let texts := ["root", "out_dir"].filterMap fun key => (Assoc.get? key settings).bind Json.string?
    texts.map (Path.absolute cwd)
  | _ => []

/-- The picture of several places. -/
def pictureAll (paths : List String) : IO FileTree := do
  let mut seen : Std.HashMap (List String) Unit := ∅
  let mut found : Array (List String × FileNode) := #[]
  for path in paths do
    for entry in ← picture (Path.components path) do
      unless seen.contains entry.1 do
        seen := seen.insert entry.1 ()
        found := found.push entry
  return ⟨found.toList⟩

/-- Whether two places of a picture look the same. -/
def sameNode : FileNode → FileNode → Bool
  | .directory, .directory => true
  | .file a, .file b => a.data == b.data
  | _, _ => false

/-- Brings the disk from one picture to another: what is gone is removed from the leaves up, then
what is new is written from the root down. -/
def carryBack (before after : FileTree) : IO Unit := do
  let here ← IO.currentDir
  let old := Std.HashMap.ofList before.entries
  let new := Std.HashMap.ofList after.entries
  let gone := before.entries.filter fun e => !new.contains e.1
  for (place, node) in gone.mergeSort fun a b => b.1.length ≤ a.1.length do
    let path := here / Path.ofComponents place
    match node with
    | .directory => IO.FS.removeDir path
    | .file _ => IO.FS.removeFile path
  for (place, node) in after.entries do
    unless (old.get? place).any (sameNode node) do
      let path := here / Path.ofComponents place
      match node with
      | .directory => IO.FS.createDirAll path
      | .file content => IO.FS.writeBinFile path content

/-- Thousandths of a second as seconds with two places. -/
def seconds (thousandths : Nat) : String :=
  let hundredths := (thousandths + 5) / 10
  let digits := toString (hundredths % 100)
  toString (hundredths / 100) ++ "." ++ (if digits.length = 1 then "0" ++ digits else digits)

/-- Whether a command line asks for every notice. -/
def isVerbose (cwd : String) (args : List String) : Bool :=
  match CommandLine.parse cwd args with
  | .ok (_, verbose) => verbose
  | .error _ => false

/-- Runs a command line on the disk. -/
def run (args : List String) : IO UInt32 := do
  let cwd := (← IO.currentDir).toString
  let start ← IO.monoMsNow
  let before ← pictureAll (reach cwd args)
  let outcome := CommandLine.run .inTurn cwd "" args before
  carryBack before outcome.state
  let elapsed := seconds ((← IO.monoMsNow) - start)
  let console := Console.start.configure (isVerbose cwd args)
  for notice in outcome.notices do
    if console.shows notice then
      match notice with
      | .finished _ => IO.eprintln (Notice.finished elapsed).message
      | _ => IO.eprintln notice.message
  match outcome.result with
  | .error e =>
    IO.eprintln e.message
    return 1
  | .ok exit =>
    if let some complaint := exit.complaint then IO.eprintln complaint
    if exit.served.isSome then IO.eprintln "this build answers requests but does not listen for them"
    IO.print exit.output
    return exit.code.toUInt32

end Rigging.Program

/-- The command line. -/
def main (args : List String) : IO UInt32 :=
  Rigging.Program.run args
