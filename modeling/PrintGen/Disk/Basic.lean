import PrintGen.Disk.Path
import PrintGen.Text.Lines
import PrintGen.Trace

/-!
# The disk

Directories and files as one value. A file holds a text, or bytes that form no text. Places are
lists of names from the root, which is always a directory. Operations take paths as written and
follow them name by name, the way an operating system does.

Left out are bounds on the length of names and paths, the ban on NUL in them, permissions, links and
the space on the disk. A real disk may refuse an operation on account of these that succeeds here.
-/

namespace PrintGen

inductive Content where
  | text (s : String)
  | binary (bytes : List UInt8)
deriving DecidableEq, Repr

/-- What stands at a place. -/
inductive DiskEntry where
  | directory
  | file (content : Content)
deriving DecidableEq, Repr

/-- The directories and files of a disk, and the place that relative paths start from. -/
structure Disk where
  entries : List (List String × DiskEntry)
  current : List String

/-- What keeps a path from leading anywhere: a name on the way is missing, or is a file. -/
inductive Obstacle where
  | missing
  | file
deriving DecidableEq, Repr

namespace Disk

def at? (d : Disk) (place : List String) : Option DiskEntry :=
  if place.isEmpty then some .directory else d.entries.lookup place

/-- Puts an entry at a place, in the position of what stood there. -/
def putEntry (place : List String) (e : DiskEntry) :
    List (List String × DiskEntry) → List (List String × DiskEntry)
  | [] => [(place, e)]
  | (p, old) :: rest => if p = place then (p, e) :: rest else (p, old) :: putEntry place e rest

def put (d : Disk) (place : List String) (e : DiskEntry) : Disk :=
  { d with entries := putEntry place e d.entries }

def erase (d : Disk) (place : List String) : Disk :=
  { d with entries := d.entries.filter fun entry => entry.1 ≠ place }

/-- Follows names from a place. Every place that is left has to be a directory. -/
def walk (d : Disk) (place : List String) : List String → Except Obstacle (List String)
  | [] => .ok place
  | name :: rest =>
    match d.at? place with
    | none => .error .missing
    | some (.file _) => .error .file
    | some .directory =>
      d.walk (if name = ".." then place.dropLast else place ++ [name]) rest

/-- The place that a path leads to; something or nothing may stand there. -/
def placeOf (d : Disk) (p : DiskPath) : Except Obstacle (List String) :=
  d.walk (if p.isAbsolute then [] else d.current) p.parts

/-- What a path leads to. -/
def find? (d : Disk) (p : DiskPath) : Option DiskEntry :=
  match d.placeOf p with
  | .ok place => d.at? place
  | .error _ => none

def isDirectory (d : Disk) (p : DiskPath) : Bool :=
  d.find? p = some .directory

def hasPath (d : Disk) (p : DiskPath) : Bool :=
  (d.find? p).isSome

/-- The text of a file, with all line endings as line feeds. -/
def readText (d : Disk) (p : DiskPath) : Except Fault String :=
  match d.placeOf p with
  | .error .missing => .error (.noSuchFile p.text)
  | .error .file => .error (.notDirectory p.text)
  | .ok place =>
    match d.at? place with
    | none => .error (.noSuchFile p.text)
    | some .directory => .error (.isDirectory p.text)
    | some (.file (.binary _)) => .error .brokenText
    | some (.file (.text s)) => .ok (String.ofList (Text.unifyLineEnds s.toList))

inductive MakeError where
  | missing
  | other (fault : Fault)

def makeDirectory (d : Disk) (p : DiskPath) : Except MakeError Disk :=
  match d.placeOf p with
  | .error .missing => .error .missing
  | .error .file => .error (.other (.notDirectory p.text))
  | .ok place =>
    match d.at? place with
    | some _ => .error (.other (.fileExists p.text))
    | none => .ok (d.put place .directory)

/-- Makes a directory whose parents have been seen to; one that exists is fine. -/
def makeLast (d : Disk) (p : DiskPath) : Disk × Option Fault :=
  match d.makeDirectory p with
  | .ok made => (made, none)
  | .error .missing => (d, some (.noSuchFile p.text))
  | .error (.other fault) => if d.isDirectory p then (d, none) else (d, some fault)

/-- Makes the directory with the given names in reverse, and before it the directories on the way
to it that are missing. -/
def makeParents (d : Disk) (slashes : Nat) : List String → Disk × Option Fault
  | [] => (d, none)
  | name :: outer =>
    let p : DiskPath := ⟨slashes, (name :: outer).reverse⟩
    match d.makeDirectory p with
    | .ok made => (made, none)
    | .error (.other fault) => if d.isDirectory p then (d, none) else (d, some fault)
    | .error .missing =>
      match d.makeParents slashes outer with
      | (d, some fault) => (d, some fault)
      | (d, none) => d.makeLast p

/-- Makes a directory with all that is missing on the way to it. Directories made before a fault
stay. -/
def makeDirectories (d : Disk) (p : DiskPath) : Disk × Option Fault :=
  d.makeParents p.slashes p.parts.reverse

end Disk

/-- A disk and the records of what was done on it. -/
structure Workspace where
  disk : Disk
  trace : Trace

/-- A computation that works on a disk, reports records and may stop at a fault; what was done
stays. -/
abbrev Filing := EStateM Fault Workspace

namespace Filing

def ofExcept {α : Type} : Except Fault α → Filing α
  | .ok a => pure a
  | .error fault => throw fault

/-- A computation that leaves the disk alone. -/
def ofTraced {α : Type} (run : Traced α) : Filing α := fun w =>
  match run w.trace with
  | .ok a trace => .ok a { w with trace }
  | .error fault trace => .error fault { w with trace }

/-- A change of the disk that may end in a fault. -/
def change (f : Disk → Disk × Option Fault) : Filing Unit := fun w =>
  match f w.disk with
  | (disk, none) => .ok () { w with disk }
  | (disk, some fault) => .error fault { w with disk }

end Filing

end PrintGen
