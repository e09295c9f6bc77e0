import PrintGen.Text.Split

/-!
# Paths

A path is a list of names, counted from the root or from the current directory. Empty names and
single dots mean nothing and are dropped; double dots stay, because where they lead depends on the
disk. A path may begin with two slashes, which lead to the root as well but are kept; more than two
count as one.
-/

namespace PrintGen

/-- A path as written: the slashes at its beginning, none for a relative path, and its names. -/
structure DiskPath where
  slashes : Nat
  parts : List String
deriving DecidableEq, Repr

namespace DiskPath

def isAbsolute (p : DiskPath) : Bool :=
  0 < p.slashes

/-- How many slashes a text that begins with `n` of them keeps. -/
def keptSlashes (n : Nat) : Nat :=
  if n ≤ 2 then n else 1

def ofText (text : String) : DiskPath :=
  let names := (Text.splitOn '/' text.toList).map String.ofList
  ⟨keptSlashes (text.toList.takeWhile (· = '/')).length,
    names.filter fun name => name ≠ "" && name ≠ "."⟩

def text (p : DiskPath) : String :=
  if p.isAbsolute then String.ofList (List.replicate p.slashes '/') ++ "/".intercalate p.parts
  else if p.parts.isEmpty then "." else "/".intercalate p.parts

/-- A path inside another; an absolute one stands for itself. -/
def join (p q : DiskPath) : DiskPath :=
  if q.isAbsolute then q else ⟨p.slashes, p.parts ++ q.parts⟩

/-- The path without its last name. -/
def parent (p : DiskPath) : DiskPath :=
  ⟨p.slashes, p.parts.dropLast⟩

/-- The last name of a path. -/
def name (p : DiskPath) : String :=
  p.parts.getLast?.getD ""

/-- Follows names from a directory, where double dots lead back by one name. -/
def follow (start : List String) (names : List String) : List String :=
  names.foldl (fun place name => if name = ".." then place.dropLast else place ++ [name]) start

/-- The absolute path without double dots that a path stands for, seen from a directory. -/
def resolve (current : List String) (p : DiskPath) : DiskPath :=
  ⟨1, follow (if p.isAbsolute then [] else current) p.parts⟩

end DiskPath

end PrintGen
