import PrintGen.Disk.Basic
import PrintGen.Fragment
import PrintGen.Settings
import PrintGen.Syntax.Tree

/-!
# Writing fragments

Each fragment goes into a file named after its key. A text is first written to a temporary file
beside its target, then checked, and only then put in place of the target; if the check fails, the
temporary file is removed. Unless overwriting is on, all targets are looked at before anything is
written: one with other content stops the run, one with the same content is left alone.
-/

namespace PrintGen

open Syntax
open Text (CodeText)

/-- The parts of a text that show that it declares a type. -/
def typeWords : List String :=
  ["class ", "struct ", "record ", "interface "]

def mentions (text part : String) : Bool :=
  Text.occursIn part.toList text.toList

/-- Checks a generated text: it follows the grammar, declares a type and has a using directive. -/
def checkText (parsed : Parsed) (text : String) : Traced Unit := do
  let tree : SourceTree := ⟨.source 0, "<generated>", text.toList, parsed.hasError, parsed.root⟩
  tree.accept true
  if !typeWords.any (mentions text) then throw .noTypeDefinition
  if !mentions text "using " then throw .noUsing

namespace Disk

def temporaryName (target : String) (n : Nat) : String :=
  "." ++ target ++ "." ++ toString n ++ ".tmp"

/-- A place for a temporary file in a directory, at which nothing stands. -/
def temporaryPlace (d : Disk) (directory : List String) (target : String) : List String :=
  let free := (List.range (d.entries.length + 1)).find? fun n =>
    (d.at? (directory ++ [temporaryName target n])).isNone
  directory ++ [temporaryName target (free.getD 0)]

/-- Puts a temporary file in place of a target; a directory cannot be replaced. -/
def replace (d : Disk) (temporary : List String) (target : DiskPath) (content : Content) :
    Disk × Option Fault :=
  let removed := d.erase temporary
  match d.placeOf target with
  | .error .missing => (removed, some (.noSuchFile target.text))
  | .error .file => (removed, some (.notDirectory target.text))
  | .ok place =>
    if d.at? place = some .directory then (removed, some (.isDirectory target.text))
    else (removed.put place (.file content), none)

end Disk

/-- Fills a temporary file with a text and checks it. -/
def fill (temporary : List String) (text : CodeText) (check : String → Traced Unit) :
    Filing String :=
  match text.string? with
  | none => throw .unwritableText
  | some s => do
    Filing.change fun d => (d.put temporary (.file (.text s)), none)
    Filing.ofTraced (check s)
    return s

/-- Writes a text to a file: the directories on the way are made, and the target changes only if
the text can be stored and the check passes. -/
def writeChecked (target : DiskPath) (text : CodeText) (check : String → Traced Unit) :
    Filing Unit := do
  Filing.change fun d => d.makeDirectories target.parent
  let d := (← get).disk
  match d.placeOf target.parent with
  | .error _ => throw (.noSuchFile target.text)
  | .ok directory =>
    let temporary := d.temporaryPlace directory target.name
    Filing.change fun d => (d.put temporary (.file (.text "")), none)
    let s ←
      try fill temporary text check
      catch fault =>
        Filing.change fun d => (d.erase temporary, none)
        throw fault
    Filing.change fun d => d.replace temporary target (.text s)

def fragmentPath (directory : DiskPath) (key : String) : DiskPath :=
  directory.join (.ofText (key ++ ".cs"))

/-- The targets that are up to date already. A target with other content is a fault. -/
def upToDate (d : Disk) : List (Fragment × DiskPath) → Except Fault (List DiskPath)
  | [] => .ok []
  | (f, target) :: rest =>
    if d.hasPath target then do
      let text ← d.readText target
      if .ofString text = f.text then return target :: (← upToDate d rest)
      else throw (.outputExists target.text)
    else upToDate d rest

/-- Writes one fragment, unless its target is up to date. -/
def writeFragment (parse : Fragment → Parsed) (validate : Bool) (current : List DiskPath)
    (f : Fragment) (target : DiskPath) : Filing DiskPath := do
  if current.contains target then
    Filing.ofTraced (report .debug .writing (target.text ++ " is up to date"))
  else
    writeChecked target f.text fun s => if validate then checkText (parse f) s else pure ()
    Filing.ofTraced (report .debug .writing ("Wrote " ++ target.text))
  return target

/-- Writes fragments into a directory. The result is the files in order, whether they were written
or up to date. -/
def writeFragments (parse : Fragment → Parsed) (directory : DiskPath) (output : OutputSettings)
    (fragments : List Fragment) : Filing (List DiskPath) := do
  let targets := fragments.map fun f => (f, fragmentPath directory f.key)
  let current ←
    if output.mode = .errorIfExists then Filing.ofExcept (upToDate (← get).disk targets)
    else pure []
  targets.mapM fun (f, target) => writeFragment parse output.validate current f target

end PrintGen
