import PrintGen.Disk.Basic

/-!
# Collecting sources

A directory stands for everything below it whose name ends in `.cs`, in the order of the paths name
by name. Any other path stands for itself. No source is collected twice.
-/

namespace PrintGen

def isSourceName (name : String) : Bool :=
  ['.', 'c', 's'].isSuffixOf name.toList

/-- The names that lead from a place to one below it. -/
def below? (place : List String) (other : List String) : Option (List String) :=
  if place.isPrefixOf other && place.length < other.length then some (other.drop place.length)
  else none

/-- Whether one list of names comes before or with another, name by name. -/
def namesLe : List String → List String → Bool
  | [], _ => true
  | _ :: _, [] => false
  | a :: as, b :: bs => if a = b then namesLe as bs else a < b

def Disk.sourcesBelow (d : Disk) (p : DiskPath) : List DiskPath :=
  match d.placeOf p with
  | .error _ => []
  | .ok place =>
    let found := d.entries.filterMap fun entry => below? place entry.1
    let sources := found.filter fun names => isSourceName (names.getLast?.getD "")
    (sources.mergeSort namesLe).map fun names => ⟨p.slashes, p.parts ++ names⟩

/-- The sources that a path stands for. -/
def Disk.sourcesAt (d : Disk) (p : DiskPath) : List DiskPath :=
  if d.isDirectory p then d.sourcesBelow p else [p]

/-- The sources that a list of paths stands for, each once. -/
def Disk.collect (d : Disk) (paths : List DiskPath) : List DiskPath :=
  (paths.flatMap d.sourcesAt).eraseDups

end PrintGen
