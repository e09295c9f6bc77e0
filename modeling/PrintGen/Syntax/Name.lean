import PrintGen.Syntax.Tree

/-!
# Names

A name as written in a source, such as `global::A.B<T>`: an optional alias and a list of segments,
each an identifier with the number of its type arguments. A qualified name is a tree that may lean
to either side; reading it puts its leaves in order. It may be nested to any depth: how deep a
recursion can go on a real machine is left out here and in all passes over trees.
-/

namespace PrintGen.Syntax

/-- A segment of a name: an identifier and its number of type arguments. -/
structure Segment where
  name : String
  arity : Nat
deriving DecidableEq, Repr

/-- A name: the alias before `::`, if any, and the segments between the dots. -/
structure QualifiedName where
  aliasName : Option String
  segments : List Segment
deriving DecidableEq, Repr

/-- A child of a name node together with the name that it writes itself. -/
structure NamePart where
  node : Node
  name : Except Fault QualifiedName

/-- The first part with the given label. -/
def NamePart.at? (label : Label) (parts : List NamePart) : Option NamePart :=
  parts.find? fun part => part.node.label = some label

/-- The qualifier and the name of a qualified name: the labelled parts if both are there, else the
first and the last part that is a name. -/
def NamePart.qualifierAndName (parts : List NamePart) : Except Fault (NamePart × NamePart) :=
  match at? .qualifier parts, at? .name parts with
  | some qualifier, some name => .ok (qualifier, name)
  | _, _ =>
    let names := parts.filter fun part => part.node.named && part.node.kind.isName
    match names.head?, names.getLast? with
    | some first, some last => .ok (first, last)
    | _, _ => .error .missingNamePart

/-- The alias and the name of an alias-qualified name: the labelled parts if both are there, else
the first and the last part. -/
def NamePart.aliasAndName (parts : List NamePart) : Except Fault (NamePart × NamePart) :=
  match at? .aliasName parts, at? .name parts with
  | some aliasName, some name => .ok (aliasName, name)
  | _, _ =>
    match parts.head?, parts.getLast? with
    | some first, some last => .ok (first, last)
    | _, _ => .error .missingNamePart

/-- The number of type arguments that the node of a generic name has. -/
def argumentCount (children : List Node) : Nat :=
  match children.find? fun child => child.kind = .typeArgumentList with
  | some list => list.namedChildren.length
  | none => 0

namespace SourceTree

mutual

/-- The name that a node writes. A node that is no name has no segments. -/
def nameOf (tree : SourceTree) : Node → Except Fault QualifiedName
  | node@(.mk (.name shape) _ _ _ _ _ children) =>
    match shape with
    | .identifier => do
      let name ← tree.text node
      return ⟨none, [⟨name, 0⟩]⟩
    | .generic => do
      let name ← tree.textOf? (children.find? fun child => child.kind = .name .identifier)
      return ⟨none, [⟨name, argumentCount children⟩]⟩
    | .qualified => do
      let (qualifier, name) ← NamePart.qualifierAndName (nameParts tree children)
      let head ← qualifier.name
      let tail ← name.name
      return ⟨head.aliasName, head.segments ++ tail.segments⟩
    | .aliasQualified => do
      let (aliasName, name) ← NamePart.aliasAndName (nameParts tree children)
      let named ← name.name
      let text ← tree.text aliasName.node
      return ⟨some text, named.segments⟩
  | _ => .ok ⟨none, []⟩

/-- The children of a name node, each with the name that it writes. -/
def nameParts (tree : SourceTree) : List Node → List NamePart
  | [] => []
  | node :: rest => ⟨node, nameOf tree node⟩ :: nameParts tree rest

end

end SourceTree

end PrintGen.Syntax
