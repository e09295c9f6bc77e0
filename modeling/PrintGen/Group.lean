/-!
# Groups and key stems

Fields are grouped by the type that owns them, and types get the stems of their fragment keys. Both
work for any way to tell types apart: types that merely look alike are never merged.
-/

namespace PrintGen

/-- A field that was looked at, with its owner and whether it carries the marker. -/
structure ResolvedField (ι : Type) where
  owner : ι
  name : String
  marked : Bool
deriving DecidableEq, Repr

/-- Adds a field to the group of its owner, which is opened at the end if there is none yet. -/
def addToGroup {ι : Type} [DecidableEq ι] (f : ResolvedField ι) :
    List (ι × List (ResolvedField ι)) → List (ι × List (ResolvedField ι))
  | [] => [(f.owner, [f])]
  | (owner, fs) :: rest =>
    if owner = f.owner then (owner, fs ++ [f]) :: rest else (owner, fs) :: addToGroup f rest

/-- The marked fields grouped by owner. Groups are in order of their first field, fields keep their
order. -/
def groupByOwner {ι : Type} [DecidableEq ι] (fields : List (ResolvedField ι)) :
    List (ι × List (ResolvedField ι)) :=
  fields.foldl (fun groups f => if f.marked then addToGroup f groups else groups) []

/-- The key stem of each type: the simple name, or the metadata name where two different types have
the same simple name. -/
def keyStems {ι : Type} [DecidableEq ι] (name metadataName : ι → String) (types : List ι) :
    List (ι × String) :=
  let distinct := types.eraseDups
  distinct.map fun t =>
    (t, if distinct.countP (fun u => name u = name t) = 1 then name t else metadataName t)

def fragmentKey (stem suffix : String) : String :=
  stem ++ "." ++ suffix

/-- The last part of the keys of fragments with print methods. -/
def methodsSuffix : String :=
  "Printables"

end PrintGen
