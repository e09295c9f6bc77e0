import PrintGen.Syntax.Kind

/-!
# Syntax nodes

A syntax tree is a node with its children in source order, tokens and comments included. Trees are
read from their preorder listing, in which every row tells how many children its node has.

Visiting a whole tree goes by a worklist: the next node is taken off, its children are put in front
of what is left. Each visited node comes with the nearest type declaration around it.
-/

namespace PrintGen.Syntax

/-- A syntax node: its kind, whether the grammar names it, whether it was missing from the source,
its byte range, the label that its parent knows it by, and its children. -/
inductive Node where
  | mk (kind : Kind) (named missing : Bool) (start stop : Nat) (label : Option Label)
      (children : List Node)

namespace Node

def kind : Node → Kind
  | mk kind _ _ _ _ _ _ => kind

/-- Whether the grammar names the node; tokens are not named. -/
def named : Node → Bool
  | mk _ named _ _ _ _ _ => named

/-- Whether the parser put the node in for something that the source lacks. -/
def missing : Node → Bool
  | mk _ _ missing _ _ _ _ => missing

/-- The byte offset at which the node begins. -/
def start : Node → Nat
  | mk _ _ _ start _ _ _ => start

def stop : Node → Nat
  | mk _ _ _ _ stop _ _ => stop

def label : Node → Option Label
  | mk _ _ _ _ _ label _ => label

def children : Node → List Node
  | mk _ _ _ _ _ _ children => children

def namedChildren (node : Node) : List Node :=
  node.children.filter named

def childAt? (node : Node) (label : Label) : Option Node :=
  node.children.find? fun child => child.label = some label

def firstChild? (node : Node) (kind : Kind) : Option Node :=
  node.children.find? fun child => child.kind = kind

def hasChild (node : Node) (kind : Kind) : Bool :=
  node.children.any fun child => child.kind = kind

def childrenOf (node : Node) (kind : Kind) : List Node :=
  node.children.filter fun child => child.kind = kind

mutual

def size : Node → Nat
  | mk _ _ _ _ _ _ children => sizes children + 1

def sizes : List Node → Nat
  | [] => 0
  | node :: rest => size node + sizes rest

end

end Node

/-- A row of a preorder listing: a node without its children, and how many of them follow. -/
structure Row where
  kind : Kind
  named : Bool
  missing : Bool
  start : Nat
  stop : Nat
  childCount : Nat
  label : Option Label

/-- Puts a row in front of the trees that follow it: the first of them become its children. -/
def Row.adopt (row : Row) (following : List Node) : List Node :=
  .mk row.kind row.named row.missing row.start row.stop row.label
    (following.take row.childCount) :: following.drop row.childCount

/-- The tree that a preorder listing describes. -/
def Node.ofRows? (rows : List Row) : Option Node :=
  (rows.foldr Row.adopt []).head?

/-- A visited node with the nearest type declaration that encloses it. -/
structure Occurrence where
  owner : Option Node
  node : Node

namespace Occurrence

/-- The children of a visited node, as they are visited. -/
def children (o : Occurrence) : List Occurrence :=
  let owner := if o.node.kind.isTypeDeclaration then some o.node else o.owner
  o.node.children.map (Occurrence.mk owner)

/-- Visits what is on the worklist, each node before its children. -/
def visit : Nat → List Occurrence → List Occurrence
  | 0, _ => []
  | _, [] => []
  | fuel + 1, o :: rest => o :: visit fuel (o.children ++ rest)

end Occurrence

/-- All nodes of a tree in source order, each before its children. -/
def Node.occurrences (root : Node) : List Occurrence :=
  Occurrence.visit root.size [⟨none, root⟩]

end PrintGen.Syntax
