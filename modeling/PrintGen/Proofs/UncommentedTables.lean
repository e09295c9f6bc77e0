import PrintGen.Proofs.Comments
import PrintGen.Proofs.SiteViews

/-!
# Tables without comments

Taking comments out is a view of trees and nodes. Where comments stand aside, declarations say the
same in it, so declaring trees without comments makes the same table, in which the nodes have no
comments either, and stops at the same fault.
-/

namespace PrintGen.Symbols

open Syntax

/-! ## Using directives and namespaces -/

theorem nameOfChild?_uncommented {child : Node} (h : child.CommentsAside) :
    nameOfChild? child.uncommented = (nameOfChild? child).map Node.uncommented := by
  rw [nameOfChild?, nameOfChild?, Node.uncommented_named, Node.uncommented_kind]
  cases child.named with
  | false => rfl
  | true =>
    rw [if_pos rfl, if_pos rfl]
    by_cases hk : child.kind = .typeWrapper
    · rw [if_pos hk, if_pos hk]
      exact h.inner_asName? (.inl hk)
    · rw [if_neg hk, if_neg hk]
      exact child.uncommented_asName?

theorem nameOfChild?_comment {child : Node} (h : child.isComment) : nameOfChild? child = none := by
  have hk : child.kind ≠ .typeWrapper := by
    rw [of_decide_eq_true h]
    decide
  rw [nameOfChild?, if_neg hk, Node.asName?_comment h, ite_self]

theorem usingNames_others {children : List Node}
    (h : ∀ child ∈ children, child.CommentsAside) :
    usingNames ((Node.others children).map Node.uncommented) =
      (usingNames children).map Node.uncommented := by
  rw [usingNames_eq, usingNames_eq]
  exact filterMap_shown (fun child hc => nameOfChild?_uncommented (h child hc))
    fun child _ hc => nameOfChild?_comment (by simpa using hc)

section

variable (tree : SourceTree) {node : Node} (h : node.AllAside)

include h

theorem namesWithoutAlias_uncommented (names : List Node) :
    namesWithoutAlias node.uncommented (names.map Node.uncommented) =
      (namesWithoutAlias node names).map Node.uncommented := by
  rw [namesWithoutAlias, h.self.bare.childAt?, namesWithoutAlias]
  cases node.childAt? .name with
  | none => exact List.map_tail.symm
  | some aliasNode =>
    have hkept : node.uncommented.children.eraseP (fun child => child.label = some .name) =
        (Node.others (node.children.eraseP fun child => child.label = some .name)).map
          Node.uncommented := by
      rw [Node.uncommented_children]
      exact eraseP_shown (fun child => by rw [Node.uncommented_label])
        fun child hc hl => h.self.bare.other_of_label hc (of_decide_eq_true hl)
    simp only [Option.map_some, Node.uncommented_kind, hkept]
    split
    · rfl
    · exact usingNames_others fun child hc => (h.child (List.mem_of_mem_eraseP hc)).self

theorem usingAlias_uncommented (names : List Node) :
    usingAlias tree.uncommented node.uncommented (names.map Node.uncommented) =
      (usingAlias tree node names).map (Prod.map id (List.map Node.uncommented)) := by
  rw [usingAlias, Node.uncommented_firstChild? node (by decide), usingAlias]
  cases hn : node.firstChild? .nameEquals with
  | some nameEquals =>
    have hin := h.child (Node.firstChild?_mem hn)
    simp only [Option.map_some, tree.uncommented_declaredName hin.self.bare]
    cases tree.declaredName nameEquals <;> rfl
  | none =>
    simp only [Option.map_none, Node.uncommented_hasChild node
      (show Kind.equalsToken ≠ .comment by decide), List.head?_map, h.self.bare.childAt?_or,
      SourceTree.uncommented_textOf?, namesWithoutAlias_uncommented h, List.isEmpty_map]
    split
    · cases tree.textOf? ((node.childAt? .name).or names.head?) with
      | error fault => rfl
      | ok aliasName =>
        simp only [except_ok_bind]
        split <;> rfl
    · rfl

theorem namespaceName?_uncommented :
    namespaceName? node.uncommented = (namespaceName? node).map Node.uncommented := by
  have hfind : node.uncommented.children.find? (fun child => child.kind.isName) =
      (node.children.find? fun child => child.kind.isName).map Node.uncommented := by
    rw [Node.uncommented_children]
    refine find?_shown (fun child => by rw [Node.uncommented_kind]) fun child _ hk => ?_
    cases hc : child.isComment with
    | false => rfl
    | true =>
      rw [of_decide_eq_true hc] at hk
      cases hk
  rw [namespaceName?, hfind, h.self.bare.childAt?_or, namespaceName?]

end

/-! ## Tables -/

/-- A site without comments. -/
def Site.uncommented (s : Site) : Site :=
  ⟨s.tree.uncommented, s.node.uncommented⟩

/-- A using directive without comments. -/
def Using.uncommented (u : Using) : Using :=
  { u with tree := u.tree.uncommented, target := u.target.uncommented }

/-- A name to be bound, without comments. -/
def Reference.uncommented (r : Reference) : Reference :=
  { r with site := r.site.uncommented }

/-- A field without comments. -/
def FieldEntry.uncommented (f : FieldEntry) : FieldEntry :=
  { f with
    site := f.site.uncommented
    attributes := f.attributes.map Reference.uncommented }

/-- A type without comments. -/
def TypeEntry.uncommented (e : TypeEntry) : TypeEntry :=
  { e with declarations := e.declarations.map Site.uncommented }

/-- A base without comments. -/
def BaseReference.uncommented (b : BaseReference) : BaseReference :=
  ⟨b.type, b.name.uncommented⟩

/-- A table whose trees and nodes have no comments. -/
def Table.uncommented (table : Table) : Table :=
  { table with
    types := table.types.map TypeEntry.uncommented
    fields := table.fields.map FieldEntry.uncommented
    usings := table.usings.map Using.uncommented
    bases := table.bases.map BaseReference.uncommented }

/-- The view that leaves comments out. -/
def View.uncommented : View where
  tree := SourceTree.uncommented
  node := Node.uncommented
  tree_id _ := rfl
  tree_path _ := rfl
  tree_content _ := rfl
  node_kind := Node.uncommented_kind
  node_start := Node.uncommented_start
  node_stop := Node.uncommented_stop

/-- One step of the declaration pass does without comments what another one does with them. -/
abbrev Declare.Matches {α : Type} (x y : Declare α) : Prop :=
  Shows Table.uncommented id x y

/-! ## The declaration pass -/

section

variable (tree : SourceTree) {node : Node} (h : node.AllAside)

include h

theorem directiveOf_uncommented :
    directiveOf tree.uncommented node.uncommented =
      (directiveOf tree node).map (Option.map (Prod.map id Node.uncommented)) := by
  have hnames : usingNames node.uncommented.children =
      (usingNames node.children).map Node.uncommented := by
    rw [Node.uncommented_children]
    exact usingNames_others fun child hc => (h.child hc).self
  simp only [directiveOf, hnames, List.isEmpty_map, usingAlias_uncommented tree h]
  split
  · rfl
  · cases usingAlias tree node (usingNames node.children) with
    | error fault => rfl
    | ok found =>
      simp only [Except.map, except_ok_bind, Prod.map, List.getLast?_map]
      cases found.2.getLast? <;> rfl

theorem segmentsOf_uncommented
    (hk : node.kind = .namespaceDeclaration ∨ node.kind = .fileScopedNamespace) :
    segmentsOf tree.uncommented node.uncommented = segmentsOf tree node := by
  rw [segmentsOf, namespaceName?_uncommented h, segmentsOf]
  cases hn : namespaceName? node with
  | none => rfl
  | some nameNode =>
    have hread : nameNode ∈ namesRead node := by
      rcases hk with hk | hk <;> rw [namesRead, hk] <;> exact Option.mem_toList.mpr hn
    have hname := tree.uncommented_nameOf nameNode (h.child (namespaceName?_mem hn))
      (h.self.names nameNode hread)
    simp only [Option.map_some, hname]

/-- Where comments stand aside, a declaration says the same without them. -/
theorem reads_uncommented : View.uncommented.Reads tree node where
  declaredName := tree.uncommented_declaredName h.self.bare
  typeParameters := tree.uncommented_typeParameters h
  modifiers := tree.uncommented_modifiers node
  typeKind? := node.uncommented_typeKind?
  isAutoProperty := node.uncommented_isAutoProperty
  baseName? := h.baseName?
  attributeNames := h.attributeNames
  declarators? := node.uncommented_declarators?
  declaratorNames declarator hd :=
    tree.uncommented_declaredName (h declarator (declarators_mem hd)).bare
  directive _ := directiveOf_uncommented tree h
  isGlobal := node.uncommented_hasChild (by decide)
  isStatic := node.uncommented_hasChild (by decide)
  segments := segmentsOf_uncommented tree h

end

theorem forM_matches {f g : TypePath → Declare Unit} (h : ∀ t, Declare.Matches (f t) (g t))
    (within : Option TypePath) : Declare.Matches (within.forM f) (within.forM g) := by
  cases within with
  | none => exact Shows.pure ()
  | some t => exact h t

mutual

/-- **What a node declares does not depend on the comments in it.** -/
theorem declareMember_matches (tree : SourceTree) : ∀ (node : Node), node.AllAside →
    ∀ (scope : Scope) (within : Option TypePath),
      Declare.Matches (declareMember tree scope within node)
        (declareMember tree.uncommented scope within node.uncommented)
  | .mk kind named missing start stop label children, h => by
    intro scope within
    have hchildren : ∀ child ∈ children, child.AllAside := fun child hc => h.child hc
    rw [Node.uncommented]
    cases kind with
    | usingDirective =>
      simp only [declareMember]
      exact Shows.bind ((reads_uncommented tree h).declareUsing rfl scope)
        fun _ => Shows.pure scope
    | namespaceDeclaration =>
      simp only [declareMember]
      refine Shows.bind ((reads_uncommented tree h).enterNamespace (.inl rfl) scope) fun inner => ?_
      exact Shows.bind (declareBody_matches tree children hchildren inner none)
        fun _ => Shows.pure scope
    | fileScopedNamespace =>
      simp only [declareMember]
      refine Shows.bind ((reads_uncommented tree h).enterNamespace (.inr rfl) scope) fun inner => ?_
      exact Shows.bind (declareMembers_matches tree children hchildren inner none)
        fun _ => Shows.pure inner
    | fieldDeclaration =>
      simp only [declareMember]
      exact Shows.bind (forM_matches ((reads_uncommented tree h).declareFields scope) within)
        fun _ => Shows.pure scope
    | propertyDeclaration =>
      simp only [declareMember]
      exact Shows.bind (forM_matches (reads_uncommented tree h).declareBackingField within)
        fun _ => Shows.pure scope
    | eventFieldDeclaration =>
      simp only [declareMember]
      exact Shows.bind (forM_matches (reads_uncommented tree h).declareEventFields within)
        fun _ => Shows.pure scope
    | typeDeclaration type =>
      simp only [declareMember]
      have hkind := Node.uncommented_typeKind?
        (.mk (.typeDeclaration type) named missing start stop label children)
      rw [Node.uncommented] at hkind
      rw [hkind]
      refine Shows.bind ((reads_uncommented tree h).declareType _ scope within) fun t => ?_
      refine Shows.bind (View.uncommented.kindOf_shows t) fun declared => ?_
      simp only [id_eq]
      split
      · exact Shows.bind (declareBody_matches tree children hchildren scope (some t))
          fun _ => Shows.pure scope
      · exact Shows.pure scope
    | wrapper w =>
      simp only [declareMember]
      exact Shows.bind (declareMembers_matches tree children hchildren scope within)
        fun _ => Shows.pure scope
    | _ =>
      simp only [declareMember]
      exact Shows.pure scope

theorem declareMembers_matches (tree : SourceTree) : ∀ (nodes : List Node),
    (∀ node ∈ nodes, node.AllAside) → ∀ (scope : Scope) (within : Option TypePath),
      Declare.Matches (declareMembers tree scope within nodes)
        (declareMembers tree.uncommented scope within (Node.uncommentedAll nodes))
  | [], _ => by
    intro scope within
    rw [Node.uncommentedAll, declareMembers, declareMembers]
    exact Shows.pure ()
  | node :: rest, h => by
    intro scope within
    obtain ⟨hnode, hrest⟩ := List.forall_mem_cons.mp h
    have ih := fun inner => declareMembers_matches tree rest hrest inner within
    rw [Node.uncommentedAll, declareMembers]
    cases hc : node.isComment with
    | true =>
      -- A comment declares nothing and leaves the scope as it is.
      have hskip : declareMember tree scope within node = pure scope := by
        obtain ⟨kind, named, missing, start, stop, label, children⟩ := node
        obtain rfl : kind = .comment := of_decide_eq_true hc
        simp only [declareMember]
      rw [hskip, pure_bind]
      exact ih scope
    | false =>
      rw [if_neg (by decide), declareMembers]
      exact Shows.bind (declareMember_matches tree node hnode scope within) ih

theorem declareBody_matches (tree : SourceTree) : ∀ (children : List Node),
    (∀ child ∈ children, child.AllAside) → ∀ (scope : Scope) (within : Option TypePath),
      Declare.Matches (declareBody tree scope within children)
        (declareBody tree.uncommented scope within (Node.uncommentedAll children))
  | [], _ => by
    intro scope within
    rw [Node.uncommentedAll, declareBody, declareBody]
    exact Shows.pure ()
  | .mk kind named missing start stop label children :: rest, h => by
    intro scope within
    obtain ⟨hnode, hrest⟩ := List.forall_mem_cons.mp h
    have ih := declareBody_matches tree rest hrest scope within
    rw [Node.uncommentedAll, declareBody]
    by_cases hb : kind.isBody = true
    · have hc : (Node.mk kind named missing start stop label children).isComment = false := by
        refine decide_eq_false fun hk => ?_
        rw [show kind = .comment from hk] at hb
        cases hb
      rw [if_pos hb, hc, if_neg Bool.false_ne_true, Node.uncommented, declareBody, if_pos hb]
      exact declareMembers_matches tree children (fun child hc => hnode.child hc) scope within
    · rw [if_neg hb]
      split
      · exact ih
      · rw [Node.uncommented, declareBody, if_neg hb]
        exact ih

end

theorem declareTree_matches {tree : SourceTree} (h : tree.root.AllAside) :
    Declare.Matches (declareTree tree) (declareTree tree.uncommented) := by
  have hchildren : tree.uncommented.root.children = Node.uncommentedAll tree.root.children := by
    rw [SourceTree.uncommented, Node.uncommented_children, Node.uncommentedAll_eq]
  rw [declareTree, declareTree, hchildren]
  refine Shows.bind (View.uncommented.openFrame_shows tree _ _) fun frame => ?_
  exact declareMembers_matches tree _ (fun child hc => h.child hc) [frame] none

/-- **The declaration pass makes the same table without comments,** or stops at the same fault. -/
theorem declareTrees_matches {trees : List SourceTree} (h : ∀ tree ∈ trees, tree.root.AllAside) :
    Declare.Matches (declareTrees trees) (declareTrees (trees.map SourceTree.uncommented)) :=
  Shows.forM fun tree ht => declareTree_matches (h tree ht)

/-! ## The model -/

/-- A model without comments. -/
def Model.uncommented (m : Model) : Model :=
  { m with table := m.table.uncommented }

/-- **The model of a compilation does not depend on comments that stand aside:** there are the same
namespaces, types and fields, bases and attributes are bound to the same, and the work stops at the
same fault if it does. -/
theorem build_uncommented {trees : List SourceTree} (h : ∀ tree ∈ trees, tree.root.AllAside) :
    (build (trees.map SourceTree.uncommented)).model = (build trees).model.uncommented ∧
      (build (trees.map SourceTree.uncommented)).fault = (build trees).fault := by
  have hrun := declareTrees_matches h .empty
  cases hd : declareTrees trees .empty with
  | error fault table =>
    rw [hd] at hrun
    have hd' : declareTrees (trees.map SourceTree.uncommented) .empty =
        .error fault table.uncommented := hrun
    rw [build, hd', build, hd]
    exact ⟨rfl, rfl⟩
  | ok u table =>
    rw [hd] at hrun
    have hd' : declareTrees (trees.map SourceTree.uncommented) .empty =
        .ok u table.uncommented := hrun
    have hdeclares := declareTrees_iff.mp hd
    have hnames : Names View.uncommented.ReadsName table :=
      hdeclares.namesRead (fun tree ht n hn name hread => tree.uncommented_nameOf name
        (fun _ hi => h tree ht _
          (Node.preorder_trans hn (Node.preorder_trans (namesRead_mem hread) hi)))
        ((h tree ht n hn).names name hread)) names_empty
    obtain ⟨hmodel, hfault⟩ := View.bindTable hdeclares hnames
    obtain ⟨hf, hm⟩ := build_declared hdeclares
    obtain ⟨hf', hm'⟩ := build_declared (declareTrees_iff.mp hd')
    exact ⟨by rw [hm', hm]; exact hmodel, by rw [hf', hf]; exact hfault⟩

end PrintGen.Symbols
