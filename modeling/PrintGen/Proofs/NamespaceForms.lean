import PrintGen.Proofs.WrappedTables

/-!
# The forms of a namespace

The members of a namespace stand in its body, or after a file-scoped namespace up to the end of the
file, or among the children of a file-scoped namespace. In each of the three forms the namespace is
entered first and then its members are declared in the scope inside. So the forms declare the same:
the members belong to the same namespace and see the same levels, with the same directives in them.
-/

namespace PrintGen

open Syntax Symbols

namespace Symbols

/-- The nodes that declare something outside of types, or hold such nodes. Everything else in a
namespace, such as its braces, is passed over. -/
def openings (nodes : List Node) : List Node :=
  nodes.filter fun node => isOpening node.kind

/-- A block, the head of a file-scoped namespace and a whole one write the same name, and the block
and the whole one hold the given members. -/
structure SameNamespace (tree : SourceTree) (ms : List Node) (block head whole : Node) : Prop where
  block_kind : block.kind = .namespaceDeclaration
  head_kind : head.kind = .fileScopedNamespace
  whole_kind : whole.kind = .fileScopedNamespace
  head_name : segmentsOf tree head = segmentsOf tree block
  whole_name : segmentsOf tree whole = segmentsOf tree block
  block_members : openings (members block) = openings ms
  head_members : openings head.children = []
  whole_members : openings whole.children = openings ms

/-- Three trees with the same text that end with the same namespace in its three forms. -/
structure NamespaceForms (before ms : List Node) (block head whole : Node)
    (blocked headed enclosing : SourceTree) : Prop extends
    SameNamespace blocked ms block head whole where
  headed_source : headed.unparsed = blocked.unparsed
  enclosing_source : enclosing.unparsed = blocked.unparsed
  blocked_nodes : blocked.root.children = before ++ [block]
  headed_nodes : headed.root.children = before ++ head :: ms
  enclosing_nodes : enclosing.root.children = before ++ [whole]

/-! ## What is passed over -/

section

variable (tree : SourceTree) (scope : Scope)

theorem declareMember_skip {node : Node} (hk : isOpening node.kind = false) :
    declareMember tree scope none node = pure scope := by
  obtain ⟨kind, named, missing, start, stop, label, children⟩ := node
  cases kind with
  | usingDirective => cases hk
  | namespaceDeclaration => cases hk
  | fileScopedNamespace => cases hk
  | typeDeclaration type => cases hk
  | wrapper w => cases hk
  | fieldDeclaration =>
    simp only [declareMember]
    exact pure_bind _ _
  | propertyDeclaration =>
    simp only [declareMember]
    exact pure_bind _ _
  | eventFieldDeclaration =>
    simp only [declareMember]
    exact pure_bind _ _
  | _ => simp only [declareMember]

theorem declareMembers_openings (nodes : List Node) :
    declareMembers tree scope none nodes = declareMembers tree scope none (openings nodes) := by
  induction nodes generalizing scope with
  | nil => rfl
  | cons node rest ih =>
    rw [declareMembers, openings]
    cases hk : isOpening node.kind with
    | false =>
      rw [List.filter_cons_of_neg (by simp [hk]), declareMember_skip tree scope hk, pure_bind]
      exact ih scope
    | true =>
      rw [List.filter_cons_of_pos (p := fun node : Node => isOpening node.kind) hk, declareMembers]
      exact congrArg _ (funext ih)

/-! ## The three forms -/

/-- The namespace of a node is entered and members are declared inside. -/
def declareInside (node : Node) (ms : List Node) : Declare Unit := do
  let inner ← enterNamespace tree node scope
  declareMembers tree inner none (openings ms)

theorem declare_block {block : Node} (hk : block.kind = .namespaceDeclaration) :
    declareMembers tree scope none [block] = declareInside tree scope block (members block) := by
  obtain ⟨kind, named, missing, start, stop, label, children⟩ := block
  obtain rfl : kind = .namespaceDeclaration := hk
  simp only [declareMembers, declareMember, bind_assoc, pure_bind, declareInside]
  refine congrArg _ (funext fun inner => ?_)
  rw [declareBody_eq, ← declareMembers_openings]
  exact bind_pure _

theorem declare_head {head : Node} (hk : head.kind = .fileScopedNamespace)
    (hm : openings head.children = []) (ms : List Node) :
    declareMembers tree scope none (head :: ms) = declareInside tree scope head ms := by
  obtain ⟨kind, named, missing, start, stop, label, children⟩ := head
  obtain rfl : kind = .fileScopedNamespace := hk
  have hnone : openings children = [] := hm
  rw [declareMembers]
  simp only [declareMember, bind_assoc, pure_bind, declareInside]
  refine congrArg _ (funext fun inner => ?_)
  rw [declareMembers_openings tree inner children, hnone, declareMembers, pure_bind]
  exact declareMembers_openings tree inner ms

theorem declare_whole {whole : Node} (hk : whole.kind = .fileScopedNamespace) :
    declareMembers tree scope none [whole] = declareInside tree scope whole whole.children := by
  obtain ⟨kind, named, missing, start, stop, label, children⟩ := whole
  obtain rfl : kind = .fileScopedNamespace := hk
  simp only [declareMembers, declareMember, bind_assoc, pure_bind, declareInside]
  refine congrArg _ (funext fun inner => ?_)
  rw [Node.children, ← declareMembers_openings]
  exact bind_pure _

end

/-! ## Trees with the same text -/

section

variable {tree other : SourceTree} (ht : other.unparsed = tree.unparsed)

include ht

theorem declareInside_concurs {node node' : Node} {ms ms' : List Node}
    (hs : segmentsOf tree node' = segmentsOf tree node) (hm : openings ms' = openings ms)
    (scope : Scope) :
    Declare.Concurs (declareInside tree scope node ms) (declareInside other scope node' ms') := by
  have hname : segmentsOf other node' = segmentsOf tree node :=
    (segmentsOf_eq_of_outline ht rfl).trans hs
  rw [declareInside, declareInside, hm]
  exact Concur.bind (enterNamespace_concurs ht hname scope) fun inner =>
    ((Wraps.refl .plain (openings ms)).declares ht).1 inner none

/-- The nodes before the last ones are declared alike, and so they do not matter. -/
theorem declareMembers_concurs_after {rest rest' : List Node} {within : Option TypePath}
    (h : ∀ scope, Declare.Concurs (declareMembers tree scope within rest)
      (declareMembers other scope within rest'))
    (before : List Node) (scope : Scope) :
    Declare.Concurs (declareMembers tree scope within (before ++ rest))
      (declareMembers other scope within (before ++ rest')) := by
  induction before generalizing scope with
  | nil => exact h scope
  | cons node before ih =>
    obtain ⟨kind, named, missing, start, stop, label, children⟩ := node
    have hrefl := Wraps.refl (Position.plain.below kind) children
    rw [List.cons_append, List.cons_append, declareMembers, declareMembers]
    exact Concur.bind (declareMember_concurs ht (fun _ => rfl) hrefl (hrefl.declares ht).1
      (hrefl.declares ht).2 scope within) ih

theorem declareTree_concurs {before rest rest' : List Node}
    (hnodes : tree.root.children = before ++ rest) (hnodes' : other.root.children = before ++ rest')
    (h : ∀ scope, Declare.Concurs (declareMembers tree scope none rest)
      (declareMembers other scope none rest')) :
    Declare.Concurs (declareTree tree) (declareTree other) := by
  rw [declareTree, declareTree, hnodes, hnodes']
  exact Concur.bind (openFrame_concurs ht _ _) fun frame =>
    declareMembers_concurs_after ht h before [frame]

end

/-- Among other trees, a tree may be replaced by one that is declared alike. -/
theorem build_replaced {tree other : SourceTree}
    (h : Declare.Concurs (declareTree tree) (declareTree other)) (left right : List SourceTree) :
    View.outline.model (build (left ++ other :: right)).model =
        View.outline.model (build (left ++ tree :: right)).model ∧
      (build (left ++ other :: right)).fault = (build (left ++ tree :: right)).fault := by
  have hsame : ∀ trees : List SourceTree, List.Forall₂ (fun tree other =>
      Declare.Concurs (declareTree tree) (declareTree other)) trees trees := fun trees =>
    List.forall₂_same.mpr fun tree _ => (Wrapped.refl tree).declareTree
  exact build_concur readsName_outline
    (declareTrees_concurs (List.rel_append (hsame left) (.cons h (hsame right))))

/-- **The three forms of a namespace are equivalent.** Whatever stands before the namespace and
whatever its members are, there are the same namespaces, types and fields, every directive belongs
to the same level and every declaration sees the same levels, and bases and attributes are bound to
the same. Where one form stops at a fault, all of them stop there. -/
theorem namespace_forms_equivalent {before ms : List Node} {block head whole : Node}
    {blocked headed enclosing : SourceTree}
    (h : NamespaceForms before ms block head whole blocked headed enclosing)
    (left right : List SourceTree) :
    (View.outline.model (build (left ++ headed :: right)).model =
        View.outline.model (build (left ++ blocked :: right)).model ∧
      (build (left ++ headed :: right)).fault = (build (left ++ blocked :: right)).fault) ∧
    (View.outline.model (build (left ++ enclosing :: right)).model =
        View.outline.model (build (left ++ blocked :: right)).model ∧
      (build (left ++ enclosing :: right)).fault = (build (left ++ blocked :: right)).fault) := by
  constructor
  · refine build_replaced (declareTree_concurs h.headed_source h.blocked_nodes h.headed_nodes
      fun scope => ?_) left right
    rw [declare_block blocked scope h.block_kind,
      declare_head headed scope h.head_kind h.head_members]
    exact declareInside_concurs h.headed_source h.head_name h.block_members.symm scope
  · refine build_replaced (declareTree_concurs h.enclosing_source h.blocked_nodes h.enclosing_nodes
      fun scope => ?_) left right
    rw [declare_block blocked scope h.block_kind, declare_whole enclosing scope h.whole_kind]
    exact declareInside_concurs h.enclosing_source h.whole_name
      (h.whole_members.trans h.block_members.symm) scope

end Symbols

namespace Sample

open Marker (node identifier token)

/-- What stands before the namespace: a directive for the whole file. -/
def fileUsings : List Node :=
  [node .usingDirective 0 13 none [identifier 6 12 none]]

/-- The name of the namespace. -/
def homeName : Node :=
  node (.name .qualified) 24 27 (some .name) [
    identifier 24 25 (some .qualifier),
    identifier 26 27 (some .name)]

/-- The members of the namespace: a directive, a class with a base and a marked field, the base. -/
def homeMembers : List Node :=
  [node .usingDirective 29 51 none [identifier 35 50 none],
    node (.typeDeclaration .classType) 52 86 none [
      identifier 58 59 (some .name),
      node .baseList 60 63 none [identifier 62 63 none],
      node .declarationList 64 86 (some (.other "body")) [
        node .fieldDeclaration 66 84 none [
          node .attributeList 66 77 none [
            node .attributeUse 67 76 none [identifier 67 76 (some .name)]],
          node .variableDeclaration 78 83 none [
            node (.other "predefined_type") 78 81 (some .type) [],
            node .variableDeclarator 82 83 none [identifier 82 83 (some .name)]]]]],
    node (.typeDeclaration .classType) 87 98 none [
      identifier 93 94 (some .name),
      node .declarationList 95 98 (some (.other "body")) []]]

/-- The namespace with a body. -/
def homeBlock : Node :=
  node .namespaceDeclaration 14 98 none [
    homeName,
    node .declarationList 27 98 (some (.other "body"))
      (token (.other "\x7b") 27 28 :: homeMembers)]

/-- The head of the file-scoped namespace. -/
def homeHead : Node :=
  node .fileScopedNamespace 14 28 none [homeName, token (.other ";") 27 28]

/-- The file-scoped namespace with members of its own. -/
def homeWhole : Node :=
  node .fileScopedNamespace 14 98 none (homeName :: token (.other ";") 27 28 :: homeMembers)

/-- A source with a namespace, as a tree with the given nodes. -/
def homeSource (nodes : List Node) : SourceTree :=
  ⟨.source 0, "home.cs", "using System;\nnamespace N.K;\nusing PrintableFields;\n".toList ++
    "class C : B \x7b [Printable] int x; \x7d\nclass B \x7b \x7d".toList, false,
    node (.other "compilation_unit") 0 98 none nodes⟩

theorem homeForms : NamespaceForms fileUsings homeMembers homeBlock homeHead homeWhole
    (homeSource (fileUsings ++ [homeBlock])) (homeSource (fileUsings ++ homeHead :: homeMembers))
    (homeSource (fileUsings ++ [homeWhole])) where
  block_kind := rfl
  head_kind := rfl
  whole_kind := rfl
  head_name := rfl
  whole_name := rfl
  block_members := rfl
  head_members := rfl
  whole_members := rfl
  headed_source := rfl
  enclosing_source := rfl
  blocked_nodes := rfl
  headed_nodes := rfl
  enclosing_nodes := rfl

end Sample

theorem namespace_forms_of_sample :
    NamespaceForms Sample.fileUsings Sample.homeMembers Sample.homeBlock Sample.homeHead
        Sample.homeWhole (Sample.homeSource (Sample.fileUsings ++ [Sample.homeBlock]))
        (Sample.homeSource (Sample.fileUsings ++ Sample.homeHead :: Sample.homeMembers))
        (Sample.homeSource (Sample.fileUsings ++ [Sample.homeWhole])) ∧
      (build [Sample.homeSource (Sample.fileUsings ++ [Sample.homeBlock]),
          Marker.tree]).model.bases =
        [(.top (.child (.child .global "N") "K") ⟨"C", 0⟩,
            some (.top (.child (.child .global "N") "K") ⟨"B", 0⟩)), (Marker.type, none)] ∧
      (build [Sample.homeSource (Sample.fileUsings ++ [Sample.homeBlock]),
          Marker.tree]).model.classes = [some Marker.type] ∧
      View.outline.model (build [Sample.homeSource
          (Sample.fileUsings ++ Sample.homeHead :: Sample.homeMembers), Marker.tree]).model =
        View.outline.model (build [Sample.homeSource
          (Sample.fileUsings ++ [Sample.homeBlock]), Marker.tree]).model ∧
      View.outline.model (build [Sample.homeSource
          (Sample.fileUsings ++ [Sample.homeWhole]), Marker.tree]).model =
        View.outline.model (build [Sample.homeSource
          (Sample.fileUsings ++ [Sample.homeBlock]), Marker.tree]).model := by
  have hbound : (build [Sample.homeSource (Sample.fileUsings ++ [Sample.homeBlock]),
        Marker.tree]).model.bases =
        [(.top (.child (.child .global "N") "K") ⟨"C", 0⟩,
          some (.top (.child (.child .global "N") "K") ⟨"B", 0⟩)), (Marker.type, none)] ∧
      (build [Sample.homeSource (Sample.fileUsings ++ [Sample.homeBlock]),
        Marker.tree]).model.classes = [some Marker.type] := by
    rw [Marker.tree_parts]
    decide +kernel
  have hforms := namespace_forms_equivalent Sample.homeForms [] [Marker.tree]
  exact ⟨Sample.homeForms, hbound.1, hbound.2, hforms.1.1, hforms.2.1⟩

end PrintGen
