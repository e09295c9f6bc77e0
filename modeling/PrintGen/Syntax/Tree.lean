import PrintGen.Syntax.Node
import PrintGen.Text.Slice
import PrintGen.Trace

/-!
# Source trees

A source file with its syntax tree. Trees are told apart by an identity of their own, not by path
or content; a node of a tree is known by the tree, its byte range and its kind, so two nodes that
agree in these are not told apart.
-/

namespace PrintGen.Syntax

/-- The identity of a source tree: the built-in marker source, or a numbered source of the
caller. -/
inductive TreeId where
  | marker
  | source (index : Nat)
deriving DecidableEq, Repr

/-- What a grammar makes of a text: a tree, and whether the text has errors. -/
structure Parsed where
  hasError : Bool
  root : Node

/-- A parsed source file. -/
structure SourceTree where
  id : TreeId
  path : String
  content : List Char
  hasError : Bool
  root : Node

/-- What a node of a tree is known by. -/
structure NodeKey where
  tree : TreeId
  start : Nat
  stop : Nat
  kind : Kind
deriving DecidableEq, Repr

namespace SourceTree

def text (tree : SourceTree) (node : Node) : Except Fault String :=
  match Text.slice? tree.content node.start node.stop with
  | some cs => .ok (String.ofList cs)
  | none => .error .brokenText

/-- The source text of a node that may be absent; an absent one has no text. -/
def textOf? (tree : SourceTree) : Option Node → Except Fault String
  | some node => tree.text node
  | none => .ok ""

def texts (tree : SourceTree) (nodes : List Node) : Except Fault (List String) :=
  nodes.mapM tree.text

def key (tree : SourceTree) (node : Node) : NodeKey :=
  ⟨tree.id, node.start, node.stop, node.kind⟩

def locationOf (tree : SourceTree) (node : Node) : Text.Location :=
  Text.locate tree.content node.start

def occurrences (tree : SourceTree) : List Occurrence :=
  tree.root.occurrences

/-- The places where a source does not follow the grammar: error nodes and missing nodes, in source
order. -/
def errors (tree : SourceTree) : List Node :=
  (tree.occurrences.map Occurrence.node).filter fun node =>
    node.kind = .wrapper .error || node.missing

def firstErrorLine? (tree : SourceTree) : Option Nat :=
  tree.errors.head?.map fun node => (tree.locationOf node).line

/-- The text of the first error, at most fifty characters of it. -/
def errorSnippet (tree : SourceTree) : Except Fault String := do
  let text ← tree.textOf? tree.errors.head?
  return String.ofList (text.toList.take 50)

/-- Admits a source: one with errors is a fault if only correct ones are accepted, and otherwise
leads to a warning. -/
def accept (strict : Bool) (tree : SourceTree) : Traced Unit := do
  if tree.hasError then
    let line := tree.firstErrorLine?
    if strict then
      let snippet ← Traced.ofExcept tree.errorSnippet
      throw (.syntaxErrors tree.path line snippet)
    report .warning .parsing
      (sourceName tree.path ++ ": syntax errors near line " ++ lineText line ++
        ", continuing with a partial tree")

end SourceTree

end PrintGen.Syntax
