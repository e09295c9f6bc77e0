import PrintGen.Symbols.Table
import PrintGen.Syntax.Declaration

/-!
# Declaring symbols

The first pass over a compilation: every tree is read in source order and its declarations enter
the table. Only declaration bodies, namespaces and transparent wrappers are entered. A fault stops
the pass and leaves the table as far as it got.

A file-scoped namespace changes the scope of the declarations after it; depending on the grammar
release these are its later siblings or its own children.

Declarations may be nested to any depth. Unlike the digits of a number (`Text.maxDigits`) and the
nesting of JSON values (`Json.maxDepth`), the depth of this recursion has no bound.
-/

namespace PrintGen.Symbols

open Syntax

/-- A step of the declaration pass. -/
abbrev Declare := EStateM Fault Table

def Declare.ofExcept {α : Type} : Except Fault α → Declare α
  | .ok a => pure a
  | .error fault => throw fault

/-- Opens a new level in a namespace. -/
def openFrame (tree : SourceTree) (home : Namespace) (isFile : Bool) : Declare Frame :=
  modifyGet fun table =>
    let mark : Mark := ⟨tree.id, Table.rankIn tree.id table.frames⟩
    (⟨mark, home, isFile⟩, { table with frames := table.frames ++ [mark] })

def addNamespace (n : Namespace) : Declare Unit :=
  modify fun table =>
    if table.hasNamespace n then table else { table with namespaces := table.namespaces ++ [n] }

/-- Enters the namespaces of a list of segments one inside the other. -/
def enterSegments (tree : SourceTree) : List Segment → Scope → Declare Scope
  | [], scope => pure scope
  | s :: rest, scope => do
    let home := Namespace.child scope.home s.name
    addNamespace home
    let frame ← openFrame tree home false
    enterSegments tree rest (frame :: scope)

def namespaceName? (node : Node) : Option Node :=
  (node.childAt? .name).or (node.children.find? fun child => child.kind.isName)

/-- Enters the namespace that a node declares; one without a name is the scope itself. -/
def enterNamespace (tree : SourceTree) (node : Node) (scope : Scope) : Declare Scope :=
  match namespaceName? node with
  | none => pure scope
  | some nameNode => do
    let name ← Declare.ofExcept (tree.nameOf nameNode)
    enterSegments tree name.segments scope

/-- The names among the named children of a using directive, looked up inside a type wrapper. -/
def usingNames (children : List Node) : List Node :=
  ((children.filter Node.named).map fun child =>
    if child.kind = .typeWrapper then child.namedChildren.head?.getD child else child).filter
      fun child => child.kind.isName

/-- The names of a using directive that remain when the name of its alias is taken out: the
labelled child, or the first name if there is no label. -/
def namesWithoutAlias (node : Node) (names : List Node) : List Node :=
  match node.childAt? .name with
  | none => names.tail
  | some aliasNode =>
    if aliasNode.kind = .typeWrapper then names
    else usingNames (node.children.eraseP fun child => child.label = some .name)

/-- The alias of a using directive and the names that its target is taken from. -/
def usingAlias (tree : SourceTree) (node : Node) (names : List Node) :
    Except Fault (Option String × List Node) :=
  match node.firstChild? .nameEquals with
  | some nameEquals => do
    let aliasName ← tree.declaredName nameEquals
    return (some aliasName, names)
  | none =>
    if node.hasChild .equalsToken then do
      let aliasName ← tree.textOf? ((node.childAt? .name).or names.head?)
      let remaining := namesWithoutAlias node names
      return (some aliasName, if remaining.isEmpty then names else remaining)
    else return (none, names)

/-- Declares a using directive. The last name is its target; without a name it says nothing. -/
def declareUsing (tree : SourceTree) (node : Node) (scope : Scope) : Declare Unit :=
  let names := usingNames node.children
  if names.isEmpty then pure ()
  else do
    let (aliasName, names) ← Declare.ofExcept (usingAlias tree node names)
    match names.getLast? with
    | none => pure ()
    | some target =>
      modify fun table =>
        let mark : Mark := ⟨tree.id, Table.rankIn tree.id (table.usings.map Using.mark)⟩
        let frame := if node.hasChild .globalToken then none else scope.head?.map Frame.mark
        let directive : Using := ⟨mark, frame, tree, target, aliasName, node.hasChild .staticToken⟩
        { table with usings := table.usings ++ [directive] }

/-- Adds a declaration to a type, which it introduces if it is the first one. -/
def addDeclaration (t : TypePath) (kind : TypeKind) (parameters : List String) (site : Site) :
    Declare Unit :=
  modify fun table =>
    if table.hasType t then
      { table with types := table.types.map fun e =>
          if e.path = t then { e with declarations := e.declarations ++ [site] } else e }
    else { table with types := table.types ++ [⟨t, kind, parameters, [site]⟩] }

/-- Records the base list entry of a declaration, unless another declaration of the type came
first. -/
def addBase (t : TypePath) (tree : SourceTree) (base : Option Node) (scope : Scope) :
    Declare Unit :=
  match base with
  | none => pure ()
  | some name =>
    modify fun table =>
      if table.bases.any fun b => b.type = t then table
      else { table with bases := table.bases ++ [⟨t, ⟨⟨tree, name⟩, scope, t.outer?⟩⟩] }

/-- Declares the type of a type declaration, without its members. -/
def declareType (tree : SourceTree) (node : Node) (kind : TypeKind) (scope : Scope)
    (within : Option TypePath) : Declare TypePath := do
  let name ← Declare.ofExcept (tree.declaredName node)
  let parameters ← Declare.ofExcept (tree.typeParameters node)
  let own : Segment := ⟨name, parameters.length⟩
  let t : TypePath :=
    match within with
    | some outer => .nested outer own
    | none => .top scope.home own
  addDeclaration t kind parameters ⟨tree, node⟩
  addBase t tree node.baseName? scope
  modify fun table =>
    { table with nodeTypes := Table.putNodeType (tree.key node) t table.nodeTypes }
  return t

def addField (field : FieldEntry) : Declare Unit :=
  modify fun table => { table with fields := table.fields ++ [field] }

/-- Declares the fields of a field declaration, one per declarator, each with all attributes. -/
def declareFields (tree : SourceTree) (node : Node) (scope : Scope) (owner : TypePath) :
    Declare Unit := do
  let modifiers ← Declare.ofExcept (tree.modifiers node)
  let isConst := modifiers.contains "const"
  let attributes : List Reference :=
    node.attributeNames.map fun name => ⟨⟨tree, name⟩, scope, some owner⟩
  (node.declarators?.getD []).forM fun declarator => do
    let name ← Declare.ofExcept (tree.declaredName declarator)
    addField ⟨name, owner, isConst || modifiers.contains "static", isConst, true,
      ⟨tree, declarator⟩, some (tree.key node), attributes⟩

/-- Whether members of a type store anything: those of an interface do not, and neither do abstract
or external ones. -/
def hasStorage (kind : Option TypeKind) (modifiers : List String) : Bool :=
  kind ≠ some .interfaceType && !modifiers.contains "abstract" && !modifiers.contains "extern"

def kindOf (t : TypePath) : Declare (Option TypeKind) := do
  return ((← get).entryOf? t).map TypeEntry.kind

/-- Declares the hidden field that stores the value of an automatic property. -/
def declareBackingField (tree : SourceTree) (node : Node) (owner : TypePath) : Declare Unit := do
  let modifiers ← Declare.ofExcept (tree.modifiers node)
  let kind ← kindOf owner
  if node.isAutoProperty && hasStorage kind modifiers then
    let name ← Declare.ofExcept (tree.declaredName node)
    addField ⟨"<" ++ name ++ ">k__BackingField", owner, modifiers.contains "static", false, false,
      ⟨tree, node⟩, none, []⟩

/-- Declares the fields behind the events of a field-like event declaration; they have the names of
the events. -/
def declareEventFields (tree : SourceTree) (node : Node) (owner : TypePath) : Declare Unit := do
  let modifiers ← Declare.ofExcept (tree.modifiers node)
  let kind ← kindOf owner
  if hasStorage kind modifiers then
    (node.declarators?.getD []).forM fun declarator => do
      let name ← Declare.ofExcept (tree.declaredName declarator)
      addField ⟨name, owner, modifiers.contains "static", false, true, ⟨tree, declarator⟩, none, []⟩

mutual

/-- Declares what a node introduces, inside a scope and, for a member of a type, that type. The
result is the scope of the nodes after it. -/
def declareMember (tree : SourceTree) (scope : Scope) (within : Option TypePath) :
    Node → Declare Scope
  | node@(.mk kind _ _ _ _ _ children) =>
    match kind with
    | .usingDirective => do
      declareUsing tree node scope
      return scope
    | .namespaceDeclaration => do
      let inner ← enterNamespace tree node scope
      declareBody tree inner none children
      return scope
    | .fileScopedNamespace => do
      let inner ← enterNamespace tree node scope
      declareMembers tree inner none children
      return inner
    | .fieldDeclaration => do
      within.forM (declareFields tree node scope)
      return scope
    | .propertyDeclaration => do
      within.forM (declareBackingField tree node)
      return scope
    | .eventFieldDeclaration => do
      within.forM (declareEventFields tree node)
      return scope
    | .typeDeclaration type => do
      let t ← declareType tree node (node.typeKind?.getD type) scope within
      let declared ← kindOf t
      if declared ≠ some .enumType then
        declareBody tree scope (some t) children
      return scope
    | .wrapper _ => do
      declareMembers tree scope within children
      return scope
    | _ => pure scope

/-- Declares what a list of sibling nodes introduces, one after the other. -/
def declareMembers (tree : SourceTree) (scope : Scope) (within : Option TypePath) :
    List Node → Declare Unit
  | [] => pure ()
  | node :: rest => do
    let scope ← declareMember tree scope within node
    declareMembers tree scope within rest

/-- Declares the members in the body found among the children of a declaration. -/
def declareBody (tree : SourceTree) (scope : Scope) (within : Option TypePath) :
    List Node → Declare Unit
  | [] => pure ()
  | .mk kind _ _ _ _ _ children :: rest =>
    if kind.isBody then declareMembers tree scope within children
    else declareBody tree scope within rest

end

def declareTree (tree : SourceTree) : Declare Unit := do
  let frame ← openFrame tree .global true
  declareMembers tree [frame] none tree.root.children

def declareTrees (trees : List SourceTree) : Declare Unit :=
  trees.forM declareTree

end PrintGen.Symbols
