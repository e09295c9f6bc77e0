import PrintGen.Syntax.Tree

/-!
# Reading declarations

What a declaration node says about the thing it declares. Grammar releases differ in their labels,
so most parts are found by kind, with the label as the first or second choice.
-/

namespace PrintGen.Syntax

namespace Node

def body? (node : Node) : Option Node :=
  node.children.find? fun child => child.kind.isBody

/-- The type that a type declaration introduces. A record declaration with the word `struct` is a
record struct. -/
def typeKind? (node : Node) : Option TypeKind :=
  node.kind.declaredType?.map fun type =>
    if type = .recordType && node.hasChild .structToken then .recordStructType else type

/-- The identifier that names a declaration: the labelled one if it is an identifier, else the
first. -/
def nameNode? (node : Node) : Option Node :=
  match node.childAt? .name with
  | some child =>
    if child.kind = .name .identifier then some child else node.firstChild? (.name .identifier)
  | none => node.firstChild? (.name .identifier)

/-- How many parameters a method has; comments between them do not count. -/
def parameterCount (method : Node) : Nat :=
  match (method.childAt? .parameters).or (method.firstChild? .parameterList) with
  | some list => (list.namedChildren.filter fun child => child.kind ≠ .comment).length
  | none => 0

/-- The first entry of the base list if it is a name; only this entry can name a base class. -/
def baseName? (node : Node) : Option Node := do
  let list ← node.firstChild? .baseList
  let entry ← list.namedChildren.head?
  let name :=
    if entry.kind = .typeWrapper || entry.kind = .primaryConstructorBase then
      entry.namedChildren.head?.getD entry
    else entry
  if name.kind.isName then some name else none

/-- The names of the attributes on a declaration, in source order. -/
def attributeNames (node : Node) : List Node :=
  (node.childrenOf .attributeList).flatMap fun list =>
    (list.childrenOf .attributeUse).filterMap fun use =>
      match use.namedChildren with
      | [] => none
      | first :: _ => some ((use.childAt? .name).getD first)

/-- The declarators of a field or event declaration; nothing if it declares no variables. -/
def declarators? (node : Node) : Option (List Node) :=
  (node.firstChild? .variableDeclaration).map fun declaration =>
    declaration.childrenOf .variableDeclarator

/-- Whether a property stores its value itself: it has accessors, and none of them has a body. -/
def isAutoProperty (node : Node) : Bool :=
  match node.firstChild? .accessorList with
  | none => false
  | some list =>
    let accessors := list.childrenOf .accessorDeclaration
    !accessors.isEmpty && !accessors.any fun a => a.hasChild .block || a.hasChild .arrowClause

end Node

namespace SourceTree

def modifiers (tree : SourceTree) (node : Node) : Except Fault (List String) :=
  tree.texts (node.childrenOf .modifier)

def declaredName (tree : SourceTree) (node : Node) : Except Fault String :=
  tree.textOf? node.nameNode?

def typeParameters (tree : SourceTree) (node : Node) : Except Fault (List String) :=
  match node.firstChild? .typeParameterList with
  | none => .ok []
  | some list =>
    (list.childrenOf .typeParameter).mapM fun parameter =>
      tree.textOf? ((parameter.childAt? .name).or (parameter.firstChild? (.name .identifier)))

/-- The return type of a method as written. -/
def returnType (tree : SourceTree) (method : Node) : Except Fault String :=
  match (method.childAt? .returns).or (method.childAt? .type) with
  | some node => tree.text node
  | none => .ok "void"

end SourceTree

end PrintGen.Syntax
