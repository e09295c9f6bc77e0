import PrintGen.Proofs.Comments
import PrintGen.Proofs.ViewedPass

/-!
# Outlines

The outline of a declaration leaves out the members in its body and keeps everything else. Nothing
that is read of a declaration itself is in its members, so declarations with the same outline say
the same: their names, type parameters and bases, their attributes, their declarators.
-/

namespace PrintGen.Syntax

/-- What the nodes of a list of siblings are taken for: the root of a tree, members of a scope,
parts of a declaration one of which may be its body, or none of these. -/
inductive Position where
  | root
  | members
  | parts
  | plain
deriving DecidableEq

/-- What the children of a node are taken for. The root of a tree holds members unless it is a
declaration itself. So do wrappers and file-scoped namespaces that are members, and the body of a
declaration. -/
def Position.below (p : Position) : Kind → Position
  | .namespaceDeclaration => .parts
  | .typeDeclaration _ => .parts
  | .fileScopedNamespace => if p = .members then .members else .plain
  | .wrapper _ => if p = .root ∨ p = .members then .members else .plain
  | .declarationList => if p = .parts then .members else .plain
  | .enumMemberList => if p = .parts then .members else .plain
  | .other _ => if p = .root then .members else .plain
  | _ => .plain

namespace Node

mutual

/-- A node without the members in and below it. -/
def outlineIn (p : Position) : Node → Node
  | mk kind named missing start stop label children =>
    mk kind named missing start stop label (outlinesIn (p.below kind) children)

/-- The nodes of a list without the members among and below them. -/
def outlinesIn (p : Position) : List Node → List Node
  | [] => []
  | node :: rest => if p = .members then [] else outlineIn p node :: outlinesIn p rest

end

/-- The outline of a node: the node without the members below it. -/
def outline (node : Node) : Node :=
  node.outlineIn .plain

theorem outlinesIn_members (nodes : List Node) : outlinesIn .members nodes = [] := by
  cases nodes with
  | nil => rfl
  | cons node rest => rw [outlinesIn, if_pos rfl]

theorem outlinesIn_eq {p : Position} (hp : p ≠ .members) (nodes : List Node) :
    outlinesIn p nodes = nodes.map (outlineIn p) := by
  induction nodes with
  | nil => rfl
  | cons node rest ih => rw [outlinesIn, if_neg hp, ih, List.map_cons]

section

variable (p : Position) (node : Node)

@[simp] theorem outlineIn_kind : (node.outlineIn p).kind = node.kind := by cases node; rfl

@[simp] theorem outlineIn_named : (node.outlineIn p).named = node.named := by cases node; rfl

@[simp] theorem outlineIn_start : (node.outlineIn p).start = node.start := by cases node; rfl

@[simp] theorem outlineIn_stop : (node.outlineIn p).stop = node.stop := by cases node; rfl

@[simp] theorem outlineIn_label : (node.outlineIn p).label = node.label := by cases node; rfl

end

/-- Only the members of a body depend on what the body is a part of. -/
theorem outlineIn_parts {node : Node} (h : node.kind.isBody = false) :
    node.outlineIn .parts = node.outline := by
  obtain ⟨kind, named, missing, start, stop, label, children⟩ := node
  have hbelow : Position.parts.below kind = Position.plain.below kind := by
    cases kind with
    | declarationList => cases h
    | enumMemberList => cases h
    | _ => rfl
  rw [outline, outlineIn, outlineIn, hbelow]

/-- The children of an outline are those of the node, in outline. -/
theorem outline_children_in (node : Node) : ∃ q, (q = .parts ∨ q = .plain) ∧
    node.outline.children = node.children.map (outlineIn q) := by
  obtain ⟨kind, named, missing, start, stop, label, children⟩ := node
  have hbelow : Position.plain.below kind = .parts ∨ Position.plain.below kind = .plain := by
    cases kind with
    | namespaceDeclaration => exact .inl rfl
    | typeDeclaration _ => exact .inl rfl
    | _ => exact .inr rfl
  refine ⟨Position.plain.below kind, hbelow, outlinesIn_eq ?_ children⟩
  rcases hbelow with h | h <;> rw [h] <;> decide

theorem outlineIn_eq {q : Position} (hq : q = .parts ∨ q = .plain) {node : Node}
    (h : node.kind.isBody = false) : node.outlineIn q = node.outline := by
  rcases hq with rfl | rfl
  · exact outlineIn_parts h
  · rfl

section

variable (node : Node)

theorem outline_hasChild (kind : Kind) : node.outline.hasChild kind = node.hasChild kind := by
  obtain ⟨q, -, hc⟩ := node.outline_children_in
  rw [hasChild, hc, List.any_map, hasChild]
  simp only [Function.comp_def, outlineIn_kind]

theorem outline_childrenOf {kind : Kind} (hk : kind.isBody = false) :
    node.outline.childrenOf kind = (node.childrenOf kind).map outline := by
  obtain ⟨q, hq, hc⟩ := node.outline_children_in
  rw [childrenOf, hc, List.filter_map]
  simp only [Function.comp_def, outlineIn_kind]
  refine List.map_congr_left fun child hchild => outlineIn_eq hq ?_
  rw [childrenOf_kind hchild, hk]

theorem outline_firstChild? {kind : Kind} (hk : kind.isBody = false) :
    node.outline.firstChild? kind = (node.firstChild? kind).map outline := by
  have h := congrArg List.head? (node.outline_childrenOf hk)
  rw [childrenOf, childrenOf, List.head?_filter, List.head?_map, List.head?_filter] at h
  exact h

theorem outline_nameNode? : node.outline.nameNode? = node.nameNode?.map outline := by
  obtain ⟨q, hq, hc⟩ := node.outline_children_in
  have hat : node.outline.childAt? .name = (node.childAt? .name).map (outlineIn q) := by
    rw [childAt?, hc, List.find?_map]
    simp only [Function.comp_def, outlineIn_label]
    rfl
  have hfirst := node.outline_firstChild? (show (Kind.name .identifier).isBody = false from rfl)
  rw [nameNode?, hat, nameNode?]
  cases node.childAt? .name with
  | none => exact hfirst
  | some child =>
    simp only [Option.map_some, outlineIn_kind]
    by_cases hk : child.kind = .name .identifier
    · rw [if_pos hk, if_pos hk, outlineIn_eq hq (by rw [hk]; rfl)]
      rfl
    · rw [if_neg hk, if_neg hk]
      exact hfirst

/-- The children are in outline all the same unless the node is a declaration with a body. -/
theorem outline_children {node : Node} (h : Position.plain.below node.kind = .plain) :
    node.outline.children = node.children.map outline := by
  obtain ⟨kind, named, missing, start, stop, label, children⟩ := node
  have hbelow : Position.plain.below kind = .plain := h
  rw [outline, outlineIn, hbelow]
  exact outlinesIn_eq (by decide) children

end

section

variable {node : Node} (h : Position.plain.below node.kind = .plain)

include h

theorem outline_childAt? (label : Label) :
    node.outline.childAt? label = (node.childAt? label).map outline := by
  rw [childAt?, outline_children h, List.find?_map]
  simp only [Function.comp_def, outline, outlineIn_label]
  rfl

theorem outline_childAt?_or (label : Label) (other : Option Node) :
    (node.outline.childAt? label).or (other.map outline) =
      ((node.childAt? label).or other).map outline := by
  rw [outline_childAt? h]
  cases node.childAt? label <;> rfl

theorem outline_namedChildren : node.outline.namedChildren = node.namedChildren.map outline := by
  rw [namedChildren, outline_children h, List.filter_map]
  simp only [Function.comp_def, outline, outlineIn_named]
  rfl

end

/-! ## What a declaration says -/

section

variable (node : Node)

@[simp] theorem outline_kind : node.outline.kind = node.kind :=
  outlineIn_kind _ node

@[simp] theorem outline_named : node.outline.named = node.named :=
  outlineIn_named _ node

theorem outline_asName? : node.outline.asName? = node.asName?.map outline := by
  rw [asName?, outline_kind, asName?]
  cases node.kind.isName <;> rfl

theorem outline_inner {node : Node}
    (hk : node.kind = .typeWrapper ∨ node.kind = .primaryConstructorBase) :
    node.outline.inner = node.inner.outline := by
  have hplain : Position.plain.below node.kind = .plain := by
    rcases hk with hk | hk <;> rw [hk] <;> rfl
  rw [inner, outline_namedChildren hplain, List.head?_map, inner]
  cases node.namedChildren.head? <;> rfl

theorem outline_typeKind? : node.outline.typeKind? = node.typeKind? := by
  rw [typeKind?, outline_kind, outline_hasChild, typeKind?]

theorem outline_baseName? : node.outline.baseName? = node.baseName?.map outline := by
  rw [baseName?_eq, baseName?_eq, node.outline_firstChild? rfl]
  cases hlist : node.firstChild? .baseList with
  | none => rfl
  | some list =>
    have hplain : Position.plain.below list.kind = .plain := by rw [firstChild?_kind hlist]; rfl
    simp only [Option.map_some, Option.bind_some, outline_namedChildren hplain, List.head?_map]
    cases list.namedChildren.head? with
    | none => rfl
    | some entry =>
      simp only [Option.map_some, Option.bind_some, outline_kind]
      by_cases hw : (entry.kind = .typeWrapper || entry.kind = .primaryConstructorBase) = true
      · rw [if_pos hw, if_pos hw, outline_inner (by simpa using hw)]
        exact entry.inner.outline_asName?
      · rw [if_neg hw, if_neg hw]
        exact entry.outline_asName?

theorem outline_attributeNames : node.outline.attributeNames = node.attributeNames.map outline := by
  rw [attributeNames_eq, attributeNames_eq, node.outline_childrenOf rfl, List.flatMap_map,
    List.map_flatMap]
  refine List.flatMap_congr fun list _ => ?_
  rw [list.outline_childrenOf rfl, List.filterMap_map, List.map_filterMap]
  refine List.filterMap_congr fun use huse => ?_
  have hplain : Position.plain.below use.kind = .plain := by rw [childrenOf_kind huse]; rfl
  rw [Function.comp_apply, outline_namedChildren hplain, outline_childAt? hplain, List.head?_map]
  cases use.namedChildren.head? with
  | none => rfl
  | some first => cases use.childAt? .name <;> rfl

theorem outline_declarators? :
    node.outline.declarators? = node.declarators?.map (List.map outline) := by
  rw [declarators?, node.outline_firstChild? rfl, declarators?, Option.map_map, Option.map_map]
  refine congrArg (Option.map · _) (funext fun declaration => ?_)
  exact declaration.outline_childrenOf rfl

theorem outline_isAutoProperty : node.outline.isAutoProperty = node.isAutoProperty := by
  rw [isAutoProperty, node.outline_firstChild? rfl, isAutoProperty]
  cases node.firstChild? .accessorList with
  | none => rfl
  | some list =>
    have haccessors :=
      list.outline_childrenOf (show Kind.accessorDeclaration.isBody = false from rfl)
    simp only [Option.map_some, haccessors, List.isEmpty_map, List.any_map, Function.comp_def,
      outline_hasChild]

theorem outline_isAnnotatedField : node.outline.isAnnotatedField = node.isAnnotatedField := by
  rw [isAnnotatedField, outline_kind, outline_hasChild, isAnnotatedField]

theorem outline_parameterCount {node : Node} (hk : node.kind = .methodDeclaration) :
    node.outline.parameterCount = node.parameterCount := by
  have hplain : Position.plain.below node.kind = .plain := by rw [hk]; rfl
  rw [parameterCount, node.outline_firstChild? rfl, outline_childAt?_or hplain, parameterCount]
  cases (node.childAt? .parameters).or (node.firstChild? .parameterList) with
  | none => rfl
  | some list =>
    obtain ⟨q, -, hc⟩ := list.outline_children_in
    simp only [Option.map_some, namedChildren, hc, List.filter_map, Function.comp_def,
      outlineIn_named, outlineIn_kind, List.length_map]

end

end Node

/-! ## Texts and names -/

/-- A tree before it was parsed: its text without any nodes. -/
def SourceTree.unparsed (tree : SourceTree) : SourceTree :=
  ⟨tree.id, tree.path, tree.content, false, .mk (.other "") false false 0 0 none []⟩

/-- A part of a name in outline. -/
def NamePart.outline (part : NamePart) : NamePart :=
  ⟨part.node.outline, part.name⟩

namespace NamePart

variable (parts : List NamePart)

theorem outline_at? (label : Label) :
    at? label (parts.map outline) = (at? label parts).map outline := by
  rw [at?, List.find?_map, at?]
  simp only [Function.comp_def, outline, Node.outline, Node.outlineIn_label]

theorem outline_qualifierAndName :
    qualifierAndName (parts.map outline) =
      (qualifierAndName parts).map (Prod.map outline outline) := by
  have hnames : (parts.map outline).filter (fun part => part.node.named && part.node.kind.isName) =
      (parts.filter fun part => part.node.named && part.node.kind.isName).map outline := by
    rw [List.filter_map]
    simp only [Function.comp_def, outline, Node.outline_named, Node.outline_kind]
  simp only [qualifierAndName, outline_at?, hnames, List.head?_map, List.getLast?_map]
  generalize parts.filter (fun part => part.node.named && part.node.kind.isName) = names
  cases at? .qualifier parts <;> cases at? .name parts <;>
    cases names.head? <;> cases names.getLast? <;> rfl

theorem outline_aliasAndName :
    aliasAndName (parts.map outline) = (aliasAndName parts).map (Prod.map outline outline) := by
  simp only [aliasAndName, outline_at?, List.head?_map, List.getLast?_map]
  cases at? .aliasName parts <;> cases at? .name parts <;>
    cases parts.head? <;> cases parts.getLast? <;> rfl

end NamePart

end PrintGen.Syntax

namespace PrintGen.Symbols

open Syntax

/-- The view that shows the outlines of nodes and nothing else of their trees. -/
def View.outline : View where
  tree := SourceTree.unparsed
  node := Node.outline
  tree_id _ := rfl
  tree_path _ := rfl
  tree_content _ := rfl
  node_kind := Node.outlineIn_kind _
  node_start := Node.outlineIn_start _
  node_stop := Node.outlineIn_stop _

/-- A text does not depend on how far its node is in outline. -/
theorem text_outlineIn (tree : SourceTree) (q : Position) (node : Node) :
    tree.unparsed.text (node.outlineIn q) = tree.text node := by
  rw [SourceTree.text, Node.outlineIn_start, Node.outlineIn_stop, SourceTree.text]
  rfl

theorem argumentCount_outlines (children : List Node) :
    argumentCount (children.map Node.outline) = argumentCount children := by
  rw [argumentCount, List.find?_map, argumentCount]
  simp only [Function.comp_def, Node.outline_kind]
  cases hlist : children.find? fun child => child.kind = .typeArgumentList with
  | none => rfl
  | some list =>
    have hk : list.kind = .typeArgumentList := by simpa using List.find?_some hlist
    have hplain : Position.plain.below list.kind = .plain := by rw [hk]; rfl
    simp only [Option.map_some, Node.outline_namedChildren hplain, List.length_map]

mutual

/-- A name is read as the same from its outline. -/
theorem nameOf_outlineIn (tree : SourceTree) (q : Position) : ∀ node : Node,
    tree.unparsed.nameOf (node.outlineIn q) = tree.nameOf node
  | .mk kind named missing start stop label children => by
    cases kind with
    | name shape =>
      have hchildren : Node.outlinesIn .plain children = children.map Node.outline :=
        Node.outlinesIn_eq (by decide) children
      have hparts := nameParts_outlines tree children
      cases shape with
      | identifier =>
        have htext := text_outlineIn tree q
          (.mk (.name .identifier) named missing start stop label children)
        rw [Node.outlineIn] at htext
        simp only [Node.outlineIn, SourceTree.nameOf, htext]
      | generic =>
        have hname : (children.map Node.outline).find?
              (fun child => child.kind = .name .identifier) =
            (children.find? fun child => child.kind = .name .identifier).map Node.outline := by
          rw [List.find?_map]
          simp only [Function.comp_def, Node.outline_kind]
        have htext := View.outline.textOf? tree
          (children.find? fun child => child.kind = .name .identifier)
        rw [Node.outlineIn]
        change tree.unparsed.nameOf
          (.mk (.name .generic) named missing start stop label
            (Node.outlinesIn .plain children)) = _
        simp only [SourceTree.nameOf, hchildren, hname, argumentCount_outlines]
        exact congrArg (· >>= _) htext
      | qualified =>
        rw [Node.outlineIn]
        change tree.unparsed.nameOf
          (.mk (.name .qualified) named missing start stop label
            (Node.outlinesIn .plain children)) = _
        simp only [SourceTree.nameOf, hparts, NamePart.outline_qualifierAndName]
        cases NamePart.qualifierAndName (tree.nameParts children) <;> rfl
      | aliasQualified =>
        rw [Node.outlineIn]
        change tree.unparsed.nameOf
          (.mk (.name .aliasQualified) named missing start stop label
            (Node.outlinesIn .plain children)) = _
        simp only [SourceTree.nameOf, hparts, NamePart.outline_aliasAndName]
        cases NamePart.aliasAndName (tree.nameParts children) with
        | error fault => rfl
        | ok parts =>
          have htext : tree.unparsed.text parts.1.outline.node = tree.text parts.1.node :=
            View.outline.text tree parts.1.node
          simp only [Except.map, except_ok_bind, Prod.map, htext]
          rfl
    | _ => simp only [Node.outlineIn, SourceTree.nameOf]

theorem nameParts_outlines (tree : SourceTree) : ∀ nodes : List Node,
    tree.unparsed.nameParts (Node.outlinesIn .plain nodes) =
      (tree.nameParts nodes).map NamePart.outline
  | [] => rfl
  | node :: rest => by
    rw [Node.outlinesIn, if_neg (by decide), SourceTree.nameParts, SourceTree.nameParts,
      List.map_cons, nameOf_outlineIn tree .plain node, nameParts_outlines tree rest]
    rfl

end

section

variable (tree : SourceTree) (node : Node)

theorem declaredName_outline :
    tree.unparsed.declaredName node.outline = tree.declaredName node := by
  rw [SourceTree.declaredName, node.outline_nameNode?, SourceTree.declaredName]
  exact View.outline.textOf? tree node.nameNode?

theorem modifiers_outline : tree.unparsed.modifiers node.outline = tree.modifiers node := by
  rw [SourceTree.modifiers, node.outline_childrenOf rfl, SourceTree.modifiers]
  exact View.outline.texts tree _

theorem typeParameters_outline :
    tree.unparsed.typeParameters node.outline = tree.typeParameters node := by
  rw [SourceTree.typeParameters, node.outline_firstChild? rfl, SourceTree.typeParameters]
  cases node.firstChild? .typeParameterList with
  | none => rfl
  | some list =>
    have hparameters := list.outline_childrenOf (show Kind.typeParameter.isBody = false from rfl)
    simp only [Option.map_some, hparameters, List.mapM_map]
    refine mapM_congr_mem fun parameter hp => ?_
    have hplain : Position.plain.below parameter.kind = .plain := by
      rw [Node.childrenOf_kind hp]
      rfl
    rw [Function.comp_apply, parameter.outline_firstChild? rfl, Node.outline_childAt?_or hplain]
    exact View.outline.textOf? tree _

theorem usingNames_outlines (children : List Node) :
    usingNames (children.map Node.outline) = (usingNames children).map Node.outline := by
  rw [usingNames_eq, usingNames_eq, List.filterMap_map, List.map_filterMap]
  refine List.filterMap_congr fun child _ => ?_
  rw [Function.comp_apply, nameOfChild?, nameOfChild?, Node.outline_named, Node.outline_kind]
  cases child.named with
  | false => rfl
  | true =>
    rw [if_pos rfl, if_pos rfl]
    by_cases hk : child.kind = .typeWrapper
    · rw [if_pos hk, if_pos hk, Node.outline_inner (.inl hk)]
      exact child.inner.outline_asName?
    · rw [if_neg hk, if_neg hk]
      exact child.outline_asName?

theorem usingAlias_outline {node : Node} (h : Position.plain.below node.kind = .plain)
    (names : List Node) :
    usingAlias tree.unparsed node.outline (names.map Node.outline) =
      (usingAlias tree node names).map (Prod.map id (List.map Node.outline)) := by
  have hremaining : namesWithoutAlias node.outline (names.map Node.outline) =
      (namesWithoutAlias node names).map Node.outline := by
    rw [namesWithoutAlias, Node.outline_childAt? h, namesWithoutAlias]
    cases node.childAt? .name with
    | none => exact List.map_tail.symm
    | some aliasNode =>
      have hkept : node.outline.children.eraseP (fun child => child.label = some .name) =
          (node.children.eraseP fun child => child.label = some .name).map Node.outline := by
        rw [Node.outline_children h, List.eraseP_map]
        simp only [Function.comp_def, Node.outline, Node.outlineIn_label]
      simp only [Option.map_some, Node.outline_kind, hkept, usingNames_outlines]
      split <;> rfl
  rw [usingAlias, node.outline_firstChild? rfl, usingAlias]
  cases node.firstChild? .nameEquals with
  | some nameEquals =>
    simp only [Option.map_some, declaredName_outline]
    cases tree.declaredName nameEquals <;> rfl
  | none =>
    have htext : tree.unparsed.textOf? ((node.outline.childAt? .name).or
        (names.map Node.outline).head?) = tree.textOf? ((node.childAt? .name).or names.head?) := by
      rw [List.head?_map, Node.outline_childAt?_or h]
      exact View.outline.textOf? tree _
    simp only [Option.map_none, node.outline_hasChild, htext, hremaining, List.isEmpty_map]
    split
    · cases tree.textOf? ((node.childAt? .name).or names.head?) with
      | error fault => rfl
      | ok aliasName =>
        simp only [except_ok_bind]
        split <;> rfl
    · rfl

theorem directiveOf_outline {node : Node} (hk : node.kind = .usingDirective) :
    directiveOf tree.unparsed node.outline =
      (directiveOf tree node).map (Option.map (Prod.map id Node.outline)) := by
  have hplain : Position.plain.below node.kind = .plain := by rw [hk]; rfl
  have hnames : usingNames node.outline.children = (usingNames node.children).map Node.outline := by
    rw [Node.outline_children hplain, usingNames_outlines]
  have halias := usingAlias_outline tree hplain (usingNames node.children)
  simp only [directiveOf, hnames, List.isEmpty_map, halias]
  split
  · rfl
  · cases usingAlias tree node (usingNames node.children) with
    | error fault => rfl
    | ok found =>
      simp only [Except.map, except_ok_bind, Prod.map, List.getLast?_map]
      cases found.2.getLast? <;> rfl

theorem namespaceName?_outline (node : Node) : ∃ q,
    namespaceName? node.outline = (namespaceName? node).map (Node.outlineIn q) := by
  obtain ⟨q, -, hc⟩ := node.outline_children_in
  refine ⟨q, ?_⟩
  rw [namespaceName?, Node.childAt?, hc, List.find?_map, List.find?_map, namespaceName?,
    Node.childAt?]
  simp only [Function.comp_def, Node.outlineIn_label, Node.outlineIn_kind]
  cases node.children.find? fun child => child.label = some .name <;> rfl

theorem segmentsOf_outline : segmentsOf tree.unparsed node.outline = segmentsOf tree node := by
  obtain ⟨q, hname⟩ := namespaceName?_outline node
  rw [segmentsOf, hname, segmentsOf]
  cases namespaceName? node with
  | none => rfl
  | some nameNode => simp only [Option.map_some, nameOf_outlineIn]

/-- **A declaration says the same in outline.** -/
theorem reads_outline : View.outline.Reads tree node where
  declaredName := declaredName_outline tree node
  typeParameters := typeParameters_outline tree node
  modifiers := modifiers_outline tree node
  typeKind? := node.outline_typeKind?
  isAutoProperty := node.outline_isAutoProperty
  baseName? := node.outline_baseName?
  attributeNames := node.outline_attributeNames
  declarators? := node.outline_declarators?
  declaratorNames declarator _ := declaredName_outline tree declarator
  directive := directiveOf_outline tree
  isGlobal := node.outline_hasChild .globalToken
  isStatic := node.outline_hasChild .staticToken
  segments _ := segmentsOf_outline tree node

theorem readsName_outline : View.outline.ReadsName tree node :=
  nameOf_outlineIn tree .plain node

theorem readsMethod_outline {node : Node} (hk : node.kind = .methodDeclaration) :
    View.outline.ReadsMethod tree node where
  declaredName := declaredName_outline tree node
  modifiers := modifiers_outline tree node
  returnType := by
    have hplain : Position.plain.below node.kind = .plain := by rw [hk]; rfl
    change tree.unparsed.returnType node.outline = tree.returnType node
    rw [SourceTree.returnType, Node.outline_childAt? hplain .type, Node.outline_childAt?_or hplain,
      SourceTree.returnType]
    cases (node.childAt? .returns).or (node.childAt? .type) with
    | none => rfl
    | some type => exact View.outline.text tree type
  parameterCount := Node.outline_parameterCount hk

end

end PrintGen.Symbols
