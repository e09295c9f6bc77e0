import PrintGen.Compilation
import PrintGen.Group
import PrintGen.Marker
import PrintGen.Syntax.Candidate

/-!
# Resolving candidates

Candidates are confirmed against the model of a private compilation that also holds the marker
source. A field counts if one of its attributes is bound to the marker class; a stub counts for the
type around it, and only the first stub of a type.
-/

namespace PrintGen

open Syntax Symbols

/-- The model that candidates are confirmed against, and the marker class in it. -/
structure Resolver where
  model : Model
  marker : Option TypePath

/-- A type with a stub: the fields to print, and the stub's own signature. -/
structure StubGroup (ι : Type) where
  owner : ι
  fieldNames : List String
  methodName : String
  modifiers : List String
  returnType : String
  site : Option Site

namespace Resolver

def ofTrees (trees : List SourceTree) : Traced Resolver := do
  let model ← ((Compilation.ofTrees trees).addTrees [Marker.tree]).model.2
  let marker ← Traced.ofExcept (model.table.typeByName Marker.metadataName)
  return ⟨model, marker⟩

def isMarked (r : Resolver) (f : BoundField) : Bool :=
  r.marker.isSome && f.classes.contains r.marker

def resolveField (r : Resolver) (f : BoundField) : Traced (Option (ResolvedField TypePath)) := do
  if r.isMarked f then return some ⟨f.field.owner, f.field.name, true⟩
  else
    report .debug .resolving (shownField f.field.owner f.field.name ++ " has no " ++
      Marker.metadataName ++ " attribute, skipping")
    return none

/-- The marked fields among the candidates, in order. -/
def resolveFields (r : Resolver) (candidates : List Candidate) :
    Traced (List (ResolvedField TypePath)) := do
  let declared := candidates.flatMap fun c => r.model.declaredFields (c.tree.key c.node)
  let resolved ← declared.mapM r.resolveField
  return resolved.filterMap id

def stubGroup (r : Resolver) (t : TypePath) (c : Candidate) :
    Except Fault (StubGroup TypePath) := do
  let methodName ← c.tree.declaredName c.node
  let modifiers ← c.tree.modifiers c.node
  let returnType ← c.tree.returnType c.node
  return ⟨t, (r.model.printableFields t).map FieldEntry.name, methodName, modifiers, returnType,
    some ⟨c.tree, c.node⟩⟩

/-- The stub groups of the candidates, except for types in `seen`. -/
def stubGroups (r : Resolver) (seen : List TypePath) : List Candidate →
    Traced (List (StubGroup TypePath))
  | [] => return []
  | c :: rest =>
    match r.model.containingType? c.tree c.owner with
    | none => do
      report .debug .resolving (c.tree.path ++ ": stub outside of a type declaration, skipping")
      r.stubGroups seen rest
    | some t =>
      if seen.contains t then r.stubGroups seen rest
      else do
        let group ← Traced.ofExcept (r.stubGroup t c)
        let groups ← r.stubGroups (t :: seen) rest
        return group :: groups

/-- One group per type with a stub, in order of the first stub. -/
def resolveStubs (r : Resolver) (candidates : List Candidate) :
    Traced (List (StubGroup TypePath)) :=
  r.stubGroups [] candidates

end Resolver

end PrintGen
