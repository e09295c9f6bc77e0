import PrintGen.Command.Run
import PrintGen.Syntax.Listing

/-!
# The executable

Loads what the arguments name into a disk value, runs the command on it, and carries out the
changes. The tree of a source file is read from the listing beside it, which has the name of the
source with `.tree.json` after it.
-/

open PrintGen PrintGen.Syntax

namespace PrintGen.Executable

def contentOf (bytes : ByteArray) : Content :=
  match String.fromUTF8? bytes with
  | some text => .text text
  | none => .binary bytes.toList

def bytesOf : Content → ByteArray
  | .text s => s.toUTF8
  | .binary bytes => ⟨bytes.toArray⟩

/-- The paths and values among the arguments. -/
def namedPaths (arguments : List String) : List String :=
  match Command.parseArguments arguments with
  | .ok a => a.paths ++ a.given.map Prod.snd
  | .error _ => []

/-- Loads what stands at a place, with everything below it. -/
partial def load (names : List String) (d : Disk) : IO Disk := do
  let p := (← IO.currentDir) / (DiskPath.text ⟨1, names⟩)
  if ← p.isDir then
    let mut d := d.put names .directory
    for e in ← p.readDir do
      d ← load (names ++ [e.fileName]) d
    return d
  else if ← p.pathExists then
    return d.put names (.file (contentOf (← IO.FS.readBinFile p)))
  else return d

/-- Loads the directories on the way to a place, as far as they exist. -/
def loadParents (names : List String) (d : Disk) : IO Disk := do
  let mut d := d
  for n in List.range names.length do
    let p := (← IO.currentDir) / (DiskPath.text ⟨1, names.take n⟩)
    if n > 0 && (← p.isDir) && (d.at? (names.take n)).isNone then
      d := d.put (names.take n) .directory
  return d

/-- The part of the disk that the arguments name. -/
def loadAll (arguments : List String) : IO Disk := do
  let current := (DiskPath.ofText (← IO.currentDir).toString).parts
  let mut d : Disk ← loadParents (current ++ [""]) ⟨[], current⟩
  for path in namedPaths arguments do
    let names := ((DiskPath.ofText path).resolve current).parts
    d ← load names (← loadParents names d)
    let listing := names.dropLast ++ [names.getLast?.getD "" ++ ".tree.json"]
    d ← load listing d
  return d

/-- Carries out the difference between two disks. -/
def store (before after : Disk) : IO Unit := do
  for (names, e) in after.entries do
    if before.at? names ≠ some e then
      let p := (← IO.currentDir) / (DiskPath.text ⟨1, names⟩)
      match e with
      | .directory => IO.FS.createDirAll p
      | .file content => IO.FS.writeBinFile p (bytesOf content)

/-- The grammar of a disk: the listings beside the sources. Generated texts are taken as correct. -/
def grammarOf (d : Disk) : Command.Grammar where
  source path _ :=
    match d.readText (.ofText (path ++ ".tree.json")) with
    | .ok text =>
      match Json.read text with
      | .ok (.obj members) => .ofMembers members
      | _ => .plain
    | .error _ => .plain
  fragment _ := .plain

end PrintGen.Executable

/-- Runs the command on the real disk. -/
def main (arguments : List String) : IO UInt32 := do
  let before ← Executable.loadAll arguments
  let outcome := Command.run (Executable.grammarOf before) before arguments
  Executable.store before outcome.disk
  (← IO.getStdout).putStr outcome.stdout
  (← IO.getStderr).putStr outcome.stderr
  if let some fault := outcome.fault then
    (← IO.getStderr).putStrLn fault.message
  return outcome.exit.toUInt32
