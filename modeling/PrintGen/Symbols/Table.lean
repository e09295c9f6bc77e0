import PrintGen.Symbols.Path

/-!
# The symbol table

What the declarations of a list of source trees introduce: namespaces, types with their partial
declarations, fields, using directives, and the names that still have to be bound. Every list is in
the order of declaration. The members of a container are those entries whose path leads to it.
-/

namespace PrintGen.Symbols

open Syntax

/-- A node together with its tree. -/
structure Site where
  tree : SourceTree
  node : Node

def Site.location (s : Site) : Text.Location :=
  s.tree.locationOf s.node

/-- The identity of something that a tree introduces: the tree, and a rank among the things of its
sort that this tree introduced before. -/
structure Mark where
  tree : TreeId
  rank : Nat
deriving DecidableEq, Repr

/-- One level of a scope: a namespace whose members are visible, and whether it is the level of a
whole file. -/
structure Frame where
  mark : Mark
  home : Namespace
  isFile : Bool
deriving DecidableEq, Repr

/-- The levels around a declaration, innermost first. -/
abbrev Scope := List Frame

/-- The namespace that a scope declares into. -/
def Scope.home : Scope → Namespace
  | [] => .global
  | frame :: _ => frame.home

/-- A using directive. A global one belongs to no level and is visible in every file. -/
structure Using where
  mark : Mark
  frame : Option Mark
  tree : SourceTree
  target : Node
  aliasName : Option String
  isStatic : Bool

/-- A name to be bound: where it stands, and the levels and the type around it. -/
structure Reference where
  site : Site
  scope : Scope
  within : Option TypePath

/-- A field. The storage of an automatic property is a field that cannot be named. The origin is
the field declaration, if there is one. -/
structure FieldEntry where
  name : String
  owner : TypePath
  isStatic : Bool
  isConst : Bool
  nameable : Bool
  site : Site
  origin : Option NodeKey
  attributes : List Reference

/-- A type with what its declarations say of it. Kind and type parameters are those of the first
declaration. -/
structure TypeEntry where
  path : TypePath
  kind : TypeKind
  parameters : List String
  declarations : List Site

/-- The first base list entry that decides the base class of a type. -/
structure BaseReference where
  type : TypePath
  name : Reference

structure Table where
  namespaces : List Namespace
  types : List TypeEntry
  nodeTypes : List (NodeKey × TypePath)
  fields : List FieldEntry
  frames : List Mark
  usings : List Using
  bases : List BaseReference

namespace Table

def empty : Table :=
  ⟨[], [], [], [], [], [], []⟩

/-- Whether a namespace exists; the global one always does. -/
def hasNamespace (table : Table) (n : Namespace) : Bool :=
  n = .global || table.namespaces.contains n

def entryOf? (table : Table) (t : TypePath) : Option TypeEntry :=
  table.types.find? fun e => e.path = t

def hasType (table : Table) (t : TypePath) : Bool :=
  table.types.any fun e => e.path = t

/-- The type itself if it exists. -/
def type? (table : Table) (t : TypePath) : Option TypePath :=
  if table.hasType t then some t else none

/-- The type directly inside a namespace or type with the given name and arity. -/
def memberType? (table : Table) (container : Entity) (s : Segment) : Option TypePath :=
  match container with
  | .ofNamespace n => table.type? (.top n s)
  | .ofType t => table.type? (.nested t s)

/-- What a segment stands for inside a container. In a namespace, a namespace of that name comes
before a type. -/
def descend? (table : Table) (container : Entity) (s : Segment) : Option Entity :=
  match container with
  | .ofNamespace n =>
    if s.arity = 0 && table.hasNamespace (.child n s.name) then
      some (.ofNamespace (.child n s.name))
    else (table.memberType? container s).map .ofType
  | .ofType _ => (table.memberType? container s).map .ofType

/-- The using directives of one level; a file also sees the global ones. -/
def usingsOf (table : Table) (frame : Frame) : List Using :=
  (table.usings.filter fun u => u.frame = some frame.mark) ++
    if frame.isFile then table.usings.filter fun u => u.frame = none else []

/-- The types directly inside a namespace, in order of declaration. -/
def typesIn (table : Table) (n : Namespace) : List TypePath :=
  (table.types.map TypeEntry.path).filter fun t =>
    match t with
    | .top home _ => home = n
    | .nested _ _ => false

/-- The types nested directly inside a type, in order of declaration. -/
def nestedIn (table : Table) (outer : TypePath) : List TypePath :=
  (table.types.map TypeEntry.path).filter fun t => t.outer? = some outer

/-- The namespaces directly inside a namespace, in order of creation. -/
def namespacesIn (table : Table) (n : Namespace) : List Namespace :=
  table.namespaces.filter fun m =>
    match m with
    | .global => false
    | .child parent _ => parent = n

/-- The fields of a type, in order of declaration. -/
def fieldsOf (table : Table) (t : TypePath) : List FieldEntry :=
  table.fields.filter fun f => f.owner = t

/-- The type that a declaration node introduced. -/
def typeOfNode? (table : Table) (key : NodeKey) : Option TypePath :=
  (table.nodeTypes.find? fun entry => entry.1 = key).map Prod.snd

/-- All declared types, each once, by the first node that introduced it. -/
def allTypes (table : Table) : List TypePath :=
  (table.nodeTypes.map Prod.snd).eraseDups

/-- Records the type of a declaration node. A node that is known already keeps its position and
takes the new type. -/
def putNodeType (key : NodeKey) (t : TypePath) : List (NodeKey × TypePath) → List (NodeKey × TypePath)
  | [] => [(key, t)]
  | (k, u) :: rest => if k = key then (k, t) :: rest else (k, u) :: putNodeType key t rest

/-- How many marks belong to a tree. -/
def rankIn (tree : TreeId) (marks : List Mark) : Nat :=
  marks.countP fun m => m.tree = tree

end Table

end PrintGen.Symbols
