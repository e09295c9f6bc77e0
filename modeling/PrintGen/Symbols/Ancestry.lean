import PrintGen.Syntax.Kind

/-!
# Base classes

Whether a class is an attribute class is decided by its chain of base classes: the chain has to
leave the compilation through a base that is not declared in it, and every type on the way has to
be a class. A chain that runs into a cycle never leaves. The walk works for any way to tell types
apart.
-/

namespace PrintGen.Symbols

open Syntax (TypeKind)

/-- What the walk along base classes needs to know of a type. -/
structure Lineage (ι : Type) where
  kind : TypeKind
  base : Option ι
  external : Bool

/-- Whether the base chain of a type leaves the compilation within the given number of types. -/
def leavesWithin {ι : Type} (lineage : ι → Option (Lineage ι)) : Nat → ι → Bool
  | 0, _ => false
  | fuel + 1, t =>
    match lineage t with
    | none => false
    | some l =>
      if l.kind ≠ .classType then false
      else if l.external then true
      else
        match l.base with
        | some base => leavesWithin lineage fuel base
        | none => false

end PrintGen.Symbols
