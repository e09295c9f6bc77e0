import PrintGen.Syntax.Declaration

/-!
# Candidates

The declarations worth a closer look, chosen by their shape alone: field declarations with an
attribute list, and partial methods without parameters that have the name of the stub. Whether they
really count is decided later by what their names are bound to.
-/

namespace PrintGen.Syntax

/-- A candidate: a node, the tree it stands in and the type declaration around it. -/
structure Candidate where
  tree : SourceTree
  owner : Option Node
  node : Node

/-- The candidates of a scan, each list in source order. -/
structure Candidates where
  fields : List Candidate
  stubs : List Candidate

def Node.isAnnotatedField (node : Node) : Bool :=
  node.kind = .fieldDeclaration && node.hasChild .attributeList

/-- Whether a node is a stub: a partial method of the given name without parameters. Without a name
to look for there are no stubs. -/
def SourceTree.isStub (tree : SourceTree) (stubName : Option String) (node : Node) :
    Except Fault Bool :=
  if node.kind = .methodDeclaration then do
    let modifiers ← tree.modifiers node
    if modifiers.contains "partial" then
      let name ← tree.declaredName node
      return some name = stubName && node.parameterCount = 0
    else return false
  else return false

def SourceTree.annotatedFields (tree : SourceTree) : List Candidate :=
  (tree.occurrences.filter fun o => o.node.isAnnotatedField).map fun o => ⟨tree, o.owner, o.node⟩

def SourceTree.stubs (tree : SourceTree) (stubName : Option String) :
    Except Fault (List Candidate) := do
  let found ← tree.occurrences.filterM fun o => tree.isStub stubName o.node
  return found.map fun o => ⟨tree, o.owner, o.node⟩

/-- The candidates of a list of trees, in tree order and then in source order. -/
def scan (trees : List SourceTree) (stubName : Option String) : Except Fault Candidates := do
  let stubs ← trees.mapM fun tree => tree.stubs stubName
  return ⟨trees.flatMap SourceTree.annotatedFields, stubs.flatten⟩

end PrintGen.Syntax
