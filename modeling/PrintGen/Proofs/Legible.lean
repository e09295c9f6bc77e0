import PrintGen.Proofs.Binding
import PrintGen.Proofs.NodeTypes

/-!
# Trees that can be read

A grammar only delivers trees whose nodes cover whole characters, and whose qualified names have a
part to be read on both sides. For such trees nothing that is read from a node is a fault, and so
every tree can be declared.
-/

namespace PrintGen

open Syntax Symbols

namespace Syntax

/-- Whether a node has the parts that a name of its shape is read from. -/
def Node.hasNameParts (node : Node) : Bool :=
  match node.kind with
  | .name .qualified =>
    (node.childAt? .qualifier).isSome && (node.childAt? .name).isSome ||
      node.children.any fun child => child.named && child.kind.isName
  | .name .aliasQualified => !node.children.isEmpty
  | _ => true

namespace SourceTree

/-- All nodes of a subtree cover whole characters and have their name parts. -/
def Legible (tree : SourceTree) (node : Node) : Prop :=
  ∀ n ∈ node.preorder,
    (Text.slice? tree.content n.start n.stop).isSome = true ∧ n.hasNameParts = true

instance (tree : SourceTree) (node : Node) : Decidable (tree.Legible node) :=
  inferInstanceAs (Decidable (∀ n ∈ node.preorder, _ ∧ _))

/-- A tree as a grammar delivers it. -/
abbrev WellFormed (tree : SourceTree) : Prop :=
  tree.Legible tree.root

end SourceTree

/-! ## Children -/

namespace Node

theorem childAt?_mem {node child : Node} {label : Label} (h : node.childAt? label = some child) :
    child ∈ node.children :=
  List.mem_of_find?_eq_some h

theorem firstChild?_mem {node child : Node} {kind : Kind} (h : node.firstChild? kind = some child) :
    child ∈ node.children :=
  List.mem_of_find?_eq_some h

theorem childrenOf_mem {node child : Node} {kind : Kind} (h : child ∈ node.childrenOf kind) :
    child ∈ node.children :=
  (List.mem_filter.mp h).1

theorem namedChildren_mem {node child : Node} (h : child ∈ node.namedChildren) :
    child ∈ node.children :=
  (List.mem_filter.mp h).1

theorem child_mem_preorder {node child : Node} (h : child ∈ node.children) :
    child ∈ node.preorder :=
  (preorder_child h).subset (mem_preorder_self child)

theorem nameNode?_mem {node child : Node} (h : node.nameNode? = some child) :
    child ∈ node.children := by
  rw [nameNode?] at h
  split at h
  · split at h
    · rename_i hc _
      cases h
      exact childAt?_mem hc
    · exact firstChild?_mem h
  · exact firstChild?_mem h

theorem nameNode?_kind {node child : Node} (h : node.nameNode? = some child) :
    child.kind = .name .identifier := by
  have hfirst : ∀ first, node.firstChild? (.name .identifier) = some first →
      first.kind = .name .identifier := by
    intro first hf
    simpa using List.find?_some hf
  rw [nameNode?] at h
  split at h
  · split at h
    · rename_i hk
      cases h
      exact hk
    · exact hfirst child h
  · exact hfirst child h

end Node

namespace SourceTree

section

variable {tree : SourceTree}

theorem Legible.child {node child : Node} (h : tree.Legible node) (hc : child ∈ node.children) :
    tree.Legible child :=
  fun n hn => h n ((Node.preorder_child hc).subset hn)

theorem Legible.of_mem {node inner : Node} (h : tree.Legible node) (hi : inner ∈ node.preorder) :
    tree.Legible inner :=
  fun n hn => h n (Node.preorder_trans hi hn)

theorem Legible.text {node : Node} (h : tree.Legible node) :
    ∃ text, tree.text node = .ok text := by
  obtain ⟨cs, hcs⟩ := Option.isSome_iff_exists.mp (h node (Node.mem_preorder_self node)).1
  exact ⟨String.ofList cs, by rw [SourceTree.text, hcs]⟩

theorem textOf?_total {node : Option Node} (h : ∀ n, node = some n → tree.Legible n) :
    ∃ text, tree.textOf? node = .ok text := by
  cases node with
  | none => exact ⟨"", rfl⟩
  | some n => exact (h n rfl).text

theorem texts_total {nodes : List Node} (h : ∀ n ∈ nodes, tree.Legible n) :
    ∃ texts, tree.texts nodes = .ok texts :=
  mapM_total fun n hn => (h n hn).text

theorem Legible.modifiers {node : Node} (h : tree.Legible node) :
    ∃ modifiers, tree.modifiers node = .ok modifiers :=
  texts_total fun _ hn => h.child (Node.childrenOf_mem hn)

theorem Legible.declaredName {node : Node} (h : tree.Legible node) :
    ∃ name, tree.declaredName node = .ok name :=
  textOf?_total fun _ hn => h.child (Node.nameNode?_mem hn)

theorem Legible.returnType {node : Node} (h : tree.Legible node) :
    ∃ text, tree.returnType node = .ok text := by
  rw [SourceTree.returnType]
  cases hn : (node.childAt? .returns).or (node.childAt? .type) with
  | none => exact ⟨"void", rfl⟩
  | some child =>
    rcases Option.or_eq_some_iff.mp hn with hl | ⟨_, hl⟩
    · exact (h.child (Node.childAt?_mem hl)).text
    · exact (h.child (Node.childAt?_mem hl)).text

theorem Legible.typeParameters {node : Node} (h : tree.Legible node) :
    ∃ names, tree.typeParameters node = .ok names := by
  rw [SourceTree.typeParameters]
  cases hl : node.firstChild? .typeParameterList with
  | none => exact ⟨[], rfl⟩
  | some list =>
    refine mapM_total fun parameter hp => textOf?_total fun n hn => ?_
    have hparameter := (h.child (Node.firstChild?_mem hl)).child (Node.childrenOf_mem hp)
    rcases Option.or_eq_some_iff.mp hn with hc | ⟨_, hc⟩
    · exact hparameter.child (Node.childAt?_mem hc)
    · exact hparameter.child (Node.firstChild?_mem hc)

theorem Legible.isStub {node : Node} (h : tree.Legible node) (stubName : Option String) :
    ∃ b, tree.isStub stubName node = .ok b := by
  obtain ⟨modifiers, hm⟩ := h.modifiers
  obtain ⟨name, hn⟩ := h.declaredName
  rw [SourceTree.isStub, hm, hn]
  split
  · rw [except_ok_bind]
    split
    · exact ⟨_, rfl⟩
    · exact ⟨false, rfl⟩
  · exact ⟨false, rfl⟩

/-! ## Names -/

theorem mem_nameParts {nodes : List Node} {part : NamePart} (h : part ∈ tree.nameParts nodes) :
    part.node ∈ nodes ∧ part.name = tree.nameOf part.node := by
  induction nodes with
  | nil => rw [nameParts] at h; cases h
  | cons node rest ih =>
    rw [nameParts] at h
    rcases List.mem_cons.mp h with rfl | hr
    · exact ⟨by simp, rfl⟩
    · exact ⟨by simp [(ih hr).1], (ih hr).2⟩

theorem nameParts_node (tree : SourceTree) (nodes : List Node) :
    (tree.nameParts nodes).map NamePart.node = nodes := by
  induction nodes with
  | nil => rw [nameParts]; rfl
  | cons node rest ih => rw [nameParts, List.map_cons, ih]

theorem at?_isSome (tree : SourceTree) (label : Label) (nodes : List Node) :
    (NamePart.at? label (tree.nameParts nodes)).isSome =
      (nodes.find? fun child => child.label = some label).isSome := by
  conv_rhs => rw [← nameParts_node tree nodes, List.find?_map, Option.isSome_map]
  rfl

/-- The parts of a qualified name are there, and they are children. -/
theorem qualifierAndName_total {node : Node} (hk : node.kind = .name .qualified)
    (h : node.hasNameParts = true) :
    ∃ first last, NamePart.qualifierAndName (tree.nameParts node.children) = .ok (first, last) ∧
      first ∈ tree.nameParts node.children ∧ last ∈ tree.nameParts node.children := by
  rw [NamePart.qualifierAndName]
  split
  · rename_i qualifier name hq hn
    exact ⟨qualifier, name, rfl, List.mem_of_find?_eq_some hq, List.mem_of_find?_eq_some hn⟩
  · rename_i hlabels
    have hnames : (tree.nameParts node.children).filter
        (fun part => part.node.named && part.node.kind.isName) ≠ [] := by
      simp only [Node.hasNameParts, hk, Bool.or_eq_true, Bool.and_eq_true] at h
      rcases h with ⟨hq, hn⟩ | hany
      · rw [Node.childAt?, ← at?_isSome tree] at hq hn
        obtain ⟨qualifier, hq⟩ := Option.isSome_iff_exists.mp hq
        obtain ⟨name, hn⟩ := Option.isSome_iff_exists.mp hn
        exact absurd hn (hlabels qualifier name hq)
      · rw [List.any_eq_true] at hany
        obtain ⟨child, hc, hnamed⟩ := hany
        rw [← nameParts_node tree node.children] at hc
        obtain ⟨part, hpart, rfl⟩ := List.mem_map.mp hc
        exact List.ne_nil_of_mem (List.mem_filter.mpr ⟨hpart, hnamed⟩)
    have hfirst := List.head?_eq_some_head hnames
    have hlast := List.getLast?_eq_some_getLast hnames
    refine ⟨List.head _ hnames, List.getLast _ hnames, by simp only [hfirst, hlast], ?_, ?_⟩
    · exact (List.mem_filter.mp (List.head_mem hnames)).1
    · exact (List.mem_filter.mp (List.getLast_mem hnames)).1

/-- So are those of a name with an alias. -/
theorem aliasAndName_total {node : Node} (hk : node.kind = .name .aliasQualified)
    (h : node.hasNameParts = true) :
    ∃ first last, NamePart.aliasAndName (tree.nameParts node.children) = .ok (first, last) ∧
      first ∈ tree.nameParts node.children ∧ last ∈ tree.nameParts node.children := by
  rw [NamePart.aliasAndName]
  split
  · rename_i aliasName name ha hn
    exact ⟨aliasName, name, rfl, List.mem_of_find?_eq_some ha, List.mem_of_find?_eq_some hn⟩
  · have hparts : tree.nameParts node.children ≠ [] := by
      intro hnil
      have hnone := nameParts_node tree node.children
      rw [hnil, List.map_nil] at hnone
      simp [Node.hasNameParts, hk, ← hnone] at h
    exact ⟨_, _, by rw [List.head?_eq_some_head hparts, List.getLast?_eq_some_getLast hparts],
      List.head_mem hparts, List.getLast_mem hparts⟩

/-- **Every name in a legible subtree can be read.** -/
theorem Legible.nameOf {node : Node} (h : tree.Legible node) :
    ∃ name, tree.nameOf node = .ok name := by
  induction node using Node.children_induction with
  | step node ih =>
    have hparts : ∀ part ∈ tree.nameParts node.children,
        tree.Legible part.node ∧ ∃ name, part.name = .ok name := by
      intro part hpart
      obtain ⟨hmem, hname⟩ := mem_nameParts hpart
      refine ⟨h.child hmem, ?_⟩
      rw [hname]
      exact ih _ hmem (h.child hmem)
    have hown := (h node (Node.mem_preorder_self node)).2
    obtain ⟨kind, named, missing, start, stop, label, children⟩ := node
    cases kind with
    | name shape =>
      cases shape with
      | identifier =>
        obtain ⟨text, ht⟩ := h.text
        exact ⟨_, by rw [SourceTree.nameOf, ht, except_ok_bind]; rfl⟩
      | generic =>
        have hfirst : ∀ c, children.find? (fun child => child.kind = .name .identifier) = some c →
            tree.Legible c := fun c hc => h.child (List.mem_of_find?_eq_some hc)
        obtain ⟨text, ht⟩ := textOf?_total hfirst
        exact ⟨_, by rw [SourceTree.nameOf, ht, except_ok_bind]; rfl⟩
      | qualified =>
        obtain ⟨first, last, heq, hf, hl⟩ := qualifierAndName_total rfl hown
        obtain ⟨head, hhead⟩ := (hparts first hf).2
        obtain ⟨tail, htail⟩ := (hparts last hl).2
        refine ⟨⟨head.aliasName, head.segments ++ tail.segments⟩, ?_⟩
        rw [SourceTree.nameOf]
        exact (congrArg (· >>= _) heq).trans (by
          rw [except_ok_bind]
          simp only [hhead, htail, except_ok_bind]
          rfl)
      | aliasQualified =>
        obtain ⟨first, last, heq, hf, hl⟩ := aliasAndName_total rfl hown
        obtain ⟨text, htext⟩ := (hparts first hf).1.text
        obtain ⟨tail, htail⟩ := (hparts last hl).2
        refine ⟨⟨some text, tail.segments⟩, ?_⟩
        rw [SourceTree.nameOf]
        exact (congrArg (· >>= _) heq).trans (by
          rw [except_ok_bind]
          simp only [htext, htail, except_ok_bind]
          rfl)
    | _ => exact ⟨⟨none, []⟩, rfl⟩

theorem Legible.reads {node : Node} (h : tree.Legible node) : tree.Reads node :=
  ⟨h.nameOf, h.text⟩

end

end SourceTree

end Syntax

/-! ## Texts of single-byte characters -/

namespace Text

theorem dropBytes_ascii {cs : List Char} (h : ∀ c ∈ cs, c.utf8Size = 1) (n : Nat) :
    dropBytes cs n = some (cs.drop n) := by
  induction cs generalizing n with
  | nil => cases n <;> simp [dropBytes]
  | cons c rest ih =>
    cases n with
    | zero => simp [dropBytes]
    | succ n =>
      have hc := h c (by simp)
      rw [dropBytes, if_pos (by omega), hc]
      exact ih (fun d hd => h d (by simp [hd])) n

theorem takeBytes_ascii {cs : List Char} (h : ∀ c ∈ cs, c.utf8Size = 1) (n : Nat) :
    takeBytes cs n = some (cs.take n) := by
  induction cs generalizing n with
  | nil => cases n <;> simp [takeBytes]
  | cons c rest ih =>
    cases n with
    | zero => simp [takeBytes]
    | succ n =>
      have hc := h c (by simp)
      have hrest := ih (fun d hd => h d (by simp [hd])) n
      rw [takeBytes, if_pos (by omega), hc, Nat.add_sub_cancel, hrest]
      rfl

/-- Between single-byte characters every cut is a cut between characters. -/
theorem slice?_ascii {cs : List Char} (h : ∀ c ∈ cs, c.utf8Size = 1) (start stop : Nat) :
    (slice? cs start stop).isSome = true := by
  rw [slice?]
  split
  · rfl
  · rw [dropBytes_ascii h, Option.bind_some,
      takeBytes_ascii fun c hc => h c (List.mem_of_mem_drop hc)]
    rfl

end Text

/-- A source of single-byte characters is well-formed if its names have their parts. -/
theorem Syntax.SourceTree.wellFormed_ascii {tree : SourceTree}
    (h : (tree.content.all fun c => c.utf8Size = 1) = true)
    (hn : ∀ node ∈ tree.root.preorder, node.hasNameParts = true) : tree.WellFormed := by
  have hone : ∀ c ∈ tree.content, c.utf8Size = 1 := by simpa using h
  exact fun node hm => ⟨Text.slice?_ascii hone _ _, hn node hm⟩

/-! ## Declarations -/

namespace Symbols

section

variable {tree : SourceTree} {node : Node}

theorem usingNames_mem {children : List Node} {name : Node} (h : name ∈ usingNames children) :
    ∃ child ∈ children, name ∈ child.preorder := by
  obtain ⟨child, hc, rfl⟩ := List.mem_map.mp (List.mem_filter.mp h).1
  refine ⟨child, (List.mem_filter.mp hc).1, ?_⟩
  split
  · cases hf : child.namedChildren.head? with
    | none => exact Node.mem_preorder_self child
    | some first =>
      exact Node.child_mem_preorder (Node.namedChildren_mem (List.mem_of_head? hf))
  · exact Node.mem_preorder_self child

theorem usingNames_subset {children more : List Node} (h : children.Sublist more) :
    usingNames children ⊆ usingNames more :=
  (((h.filter _).map _).filter _).subset

/-- The target of a using directive is one of the names in it. -/
theorem directiveOf_target {aliasName : Option String} {target : Node}
    (h : directiveOf tree node = .ok (some (aliasName, target))) :
    target ∈ usingNames node.children := by
  have hremaining : namesWithoutAlias node (usingNames node.children) ⊆
      usingNames node.children := by
    rw [namesWithoutAlias]
    split
    · exact (List.tail_sublist _).subset
    · split
      · exact List.Subset.refl _
      · exact usingNames_subset List.eraseP_sublist
  rw [directiveOf] at h
  split at h
  · cases h
  · obtain ⟨⟨aliasName', names⟩, hread, hlast⟩ := except_bind_ok.mp h
    obtain ⟨last, hl, hpair⟩ := Option.map_eq_some_iff.mp (Except.ok.inj hlast)
    cases hpair
    have hmem := List.mem_of_getLast? hl
    rw [usingAlias] at hread
    split at hread
    · obtain ⟨_, _, he⟩ := except_bind_ok.mp hread
      cases he
      exact hmem
    · split at hread
      · obtain ⟨_, _, he⟩ := except_bind_ok.mp hread
        cases he
        split at hmem
        · exact hmem
        · exact hremaining hmem
      · cases hread
        exact hmem

/-- A using directive can be read. -/
theorem directiveOf_total (h : tree.Legible node) : ∃ d, directiveOf tree node = .ok d := by
  have hread : ∃ found, usingAlias tree node (usingNames node.children) = .ok found := by
    rw [usingAlias]
    split
    · rename_i nameEquals he
      obtain ⟨aliasName, ha⟩ := (h.child (Node.firstChild?_mem he)).declaredName
      exact ⟨_, by rw [ha]; rfl⟩
    · split
      · have hlabelled : ∀ n, (node.childAt? .name).or (usingNames node.children).head? = some n →
            tree.Legible n := by
          intro n hn
          rcases Option.or_eq_some_iff.mp hn with hl | ⟨_, hl⟩
          · exact h.child (Node.childAt?_mem hl)
          · obtain ⟨child, hc, hname⟩ := usingNames_mem (List.mem_of_head? hl)
            exact (h.child hc).of_mem hname
        obtain ⟨aliasName, ha⟩ := SourceTree.textOf?_total hlabelled
        exact ⟨_, by rw [ha]; rfl⟩
      · exact ⟨_, rfl⟩
  rw [directiveOf]
  split
  · exact ⟨none, rfl⟩
  · obtain ⟨found, hfound⟩ := hread
    exact ⟨_, by rw [hfound]; rfl⟩

theorem namespaceName?_mem {name : Node} (h : namespaceName? node = some name) :
    name ∈ node.children := by
  rcases Option.or_eq_some_iff.mp h with hl | ⟨_, hl⟩
  · exact Node.childAt?_mem hl
  · exact List.mem_of_find?_eq_some hl

theorem segmentsOf_total (h : tree.Legible node) :
    ∃ segments, segmentsOf tree node = .ok segments := by
  rw [segmentsOf]
  cases hn : namespaceName? node with
  | none => exact ⟨[], rfl⟩
  | some nameNode =>
    obtain ⟨name, hread⟩ := (h.child (namespaceName?_mem hn)).nameOf
    exact ⟨name.segments, by simp only [hread, except_ok_bind]; rfl⟩

theorem typeOf_total (h : tree.Legible node) (scope : Scope) (within : Option TypePath) :
    ∃ t parameters, typeOf tree node scope within = .ok (t, parameters) := by
  obtain ⟨name, hn⟩ := h.declaredName
  obtain ⟨parameters, hp⟩ := h.typeParameters
  exact ⟨_, parameters, by rw [typeOf, hn, except_ok_bind, hp, except_ok_bind]; rfl⟩

theorem declarators_mem {declarator : Node} (hd : declarator ∈ node.declarators?.getD []) :
    declarator ∈ node.preorder := by
  rw [Node.declarators?] at hd
  cases hv : node.firstChild? .variableDeclaration with
  | none =>
    rw [hv] at hd
    cases hd
  | some declaration =>
    rw [hv] at hd
    exact Node.preorder_trans (Node.child_mem_preorder (Node.firstChild?_mem hv))
      (Node.child_mem_preorder (Node.childrenOf_mem hd))

theorem storedFields_total (h : tree.Legible node) (scope : Scope) (owner : TypePath)
    (kind : Option TypeKind) : ∃ fields, storedFields tree scope owner kind node = .ok fields := by
  obtain ⟨modifiers, hm⟩ := h.modifiers
  have hnamed : ∀ declarator ∈ node.declarators?.getD [],
      ∃ name, tree.declaredName declarator = .ok name :=
    fun declarator hd => (h.of_mem (declarators_mem hd)).declaredName
  rw [storedFields]
  split
  · rw [hm, except_ok_bind]
    refine mapM_total fun declarator hd => ?_
    obtain ⟨name, hn⟩ := hnamed declarator hd
    exact ⟨_, by rw [plainField, hn, except_ok_bind]; rfl⟩
  · rw [hm, except_ok_bind]
    split
    · obtain ⟨name, hn⟩ := h.declaredName
      exact ⟨_, by rw [backingField, hn, except_ok_bind]; rfl⟩
    · exact ⟨[], rfl⟩
  · rw [hm, except_ok_bind]
    split
    · refine mapM_total fun declarator hd => ?_
      obtain ⟨name, hn⟩ := hnamed declarator hd
      exact ⟨_, by rw [eventField, hn, except_ok_bind]; rfl⟩
    · exact ⟨[], rfl⟩
  · exact ⟨[], rfl⟩

theorem attributeNames_mem {name : Node} (h : name ∈ node.attributeNames) :
    name ∈ node.preorder := by
  obtain ⟨list, hlist, huse⟩ := List.mem_flatMap.mp h
  obtain ⟨use, hu, hname⟩ := List.mem_filterMap.mp huse
  have hmem : use ∈ node.preorder :=
    Node.preorder_trans (Node.child_mem_preorder (Node.childrenOf_mem hlist))
      (Node.child_mem_preorder (Node.childrenOf_mem hu))
  refine Node.preorder_trans hmem (Node.child_mem_preorder ?_)
  split at hname
  · cases hname
  · rename_i first _ hfirst
    cases hname
    cases hl : use.childAt? .name with
    | none => exact Node.namedChildren_mem (hfirst ▸ List.mem_cons_self)
    | some child => exact Node.childAt?_mem hl

/-- Attributes are looked up where their field stands, in the type that the field belongs to. -/
theorem storedFields_references {scope : Scope} {owner : TypePath} {kind : Option TypeKind}
    {fields : List FieldEntry} (hf : storedFields tree scope owner kind node = .ok fields) :
    ∀ f ∈ fields, ∀ r ∈ f.attributes, node.kind = .fieldDeclaration ∧
      ∃ name ∈ node.attributeNames, r = ⟨⟨tree, name⟩, scope, some owner⟩ := by
  rw [storedFields] at hf
  split at hf
  · rename_i hk
    obtain ⟨modifiers, _, hread⟩ := except_bind_ok.mp hf
    refine forall_of_mapM hread fun declarator field hfield r hr => ?_
    obtain ⟨name, _, he⟩ := except_bind_ok.mp hfield
    cases he
    obtain ⟨use, hu, rfl⟩ := List.mem_map.mp hr
    exact ⟨hk, use, hu, rfl⟩
  · obtain ⟨modifiers, _, hread⟩ := except_bind_ok.mp hf
    split at hread
    · obtain ⟨field, hfield, he⟩ := except_bind_ok.mp hread
      obtain ⟨name, _, he'⟩ := except_bind_ok.mp hfield
      cases he'
      cases he
      simp
    · cases hread
      simp
  · obtain ⟨modifiers, _, hread⟩ := except_bind_ok.mp hf
    split at hread
    · refine forall_of_mapM hread fun declarator field hfield r hr => ?_
      obtain ⟨name, _, he⟩ := except_bind_ok.mp hfield
      cases he
      cases hr
    · cases hread
      simp
  · cases hf
    simp

theorem baseName?_mem {name : Node} (h : node.baseName? = some name) : name ∈ node.preorder := by
  simp only [Node.baseName?, Option.bind_eq_bind, Option.bind_eq_some_iff] at h
  obtain ⟨list, hlist, entry, hentry, hname⟩ := h
  have hmem : entry ∈ node.preorder :=
    Node.preorder_trans (Node.child_mem_preorder (Node.firstChild?_mem hlist))
      (Node.child_mem_preorder (Node.namedChildren_mem (List.mem_of_head? hentry)))
  have hchosen : (if entry.kind = .typeWrapper || entry.kind = .primaryConstructorBase
      then entry.namedChildren.head?.getD entry else entry) ∈ entry.preorder := by
    split
    · cases hf : entry.namedChildren.head? with
      | none => exact Node.mem_preorder_self entry
      | some first =>
        exact Node.child_mem_preorder (Node.namedChildren_mem (List.mem_of_head? hf))
    · exact Node.mem_preorder_self entry
  generalize (if entry.kind = .typeWrapper || entry.kind = .primaryConstructorBase
      then entry.namedChildren.head?.getD entry else entry) = chosen at hname hchosen
  split at hname
  · cases hname
    exact Node.preorder_trans hmem hchosen
  · cases hname

end

theorem sizes_members (node : Node) : Node.sizes (members node) < node.size := by
  rw [members]
  cases hb : node.body? with
  | none =>
    rw [Node.size_eq]
    exact Nat.succ_pos _
  | some body =>
    have hbody : body.size < node.size := Node.size_lt_of_mem (List.mem_of_find?_eq_some hb)
    rw [Node.size_eq body] at hbody
    change Node.sizes body.children < node.size
    omega

theorem members_mem {node member : Node} (h : member ∈ members node) : member ∈ node.preorder := by
  rw [members] at h
  cases hb : node.body? with
  | none =>
    rw [hb] at h
    cases h
  | some body =>
    rw [hb] at h
    exact Node.preorder_trans (Node.child_mem_preorder (List.mem_of_find?_eq_some hb))
      (Node.child_mem_preorder h)

theorem openMembers_mem {table : Table} {t : TypePath} {node member : Node}
    (h : member ∈ openMembers table t node) : member ∈ node.preorder := by
  rw [openMembers] at h
  split at h
  · cases h
  · exact members_mem h

/-- **Nodes that can be read are declared without a fault**, whatever the scope and the table. -/
theorem declares_total {tree : SourceTree} {nodes : List Node}
    (h : ∀ node ∈ nodes, tree.Legible node) (scope : Scope) (within : Option TypePath)
    (table : Table) : ∃ last, Declares tree scope within nodes table last := by
  induction hn : Node.sizes nodes using Nat.strongRecOn
    generalizing nodes scope within table with
  | ind n ih =>
    subst hn
    cases nodes with
    | nil => exact ⟨table, .nil⟩
    | cons node rest =>
      have hnode := h node (by simp)
      have hsize : Node.sizes (node :: rest) = node.size + Node.sizes rest := rfl
      have hpos : 0 < node.size := by
        rw [Node.size_eq]
        exact Nat.succ_pos _
      -- The siblings after the node, and what lies in it, are smaller.
      have hrest := fun scope within table =>
        ih (Node.sizes rest) (by omega) (fun n hn => h n (by simp [hn])) scope within table rfl
      have hchildren := fun scope within table =>
        ih (Node.sizes node.children) (by have := Node.size_eq node; omega)
          (fun n hn => hnode.child hn) scope within table rfl
      have hmembers := fun scope within table =>
        ih (Node.sizes (members node)) (by have := sizes_members node; omega)
          (fun n hn => hnode.of_mem (members_mem hn)) scope within table rfl
      cases hk : node.kind with
      | usingDirective =>
        obtain ⟨d, hd⟩ := directiveOf_total hnode
        obtain ⟨last, hl⟩ := hrest scope within (table.withDirective tree node scope d)
        exact ⟨last, .directive hk hd hl⟩
      | namespaceDeclaration =>
        obtain ⟨segments, hs⟩ := segmentsOf_total hnode
        obtain ⟨mid, hm⟩ := hmembers (Table.withScope tree segments scope table).1 none
          (Table.withScope tree segments scope table).2
        obtain ⟨last, hl⟩ := hrest scope within mid
        exact ⟨last, .block hk hs hm hl⟩
      | fileScopedNamespace =>
        obtain ⟨segments, hs⟩ := segmentsOf_total hnode
        obtain ⟨mid, hm⟩ := hchildren (Table.withScope tree segments scope table).1 none
          (Table.withScope tree segments scope table).2
        obtain ⟨last, hl⟩ := hrest (Table.withScope tree segments scope table).1 within mid
        exact ⟨last, .file hk hs hm hl⟩
      | typeDeclaration kind =>
        obtain ⟨t, parameters, ht⟩ := typeOf_total hnode scope within
        have hopen : ∃ mid, Declares tree scope (some t)
            (openMembers (table.withType tree node kind scope t parameters) t node)
            (table.withType tree node kind scope t parameters) mid := by
          rw [openMembers]
          split
          · exact ⟨_, .nil⟩
          · exact hmembers _ _ _
        obtain ⟨mid, hm⟩ := hopen
        obtain ⟨last, hl⟩ := hrest scope within mid
        exact ⟨last, .type hk ht hm hl⟩
      | wrapper w =>
        obtain ⟨mid, hm⟩ := hchildren scope within table
        obtain ⟨last, hl⟩ := hrest scope within mid
        exact ⟨last, .wrapper hk hm hl⟩
      | _ =>
        have hclosed : isOpening node.kind = false := by
          rw [hk]
          rfl
        by_cases hs : isStorage node.kind = true
        · cases within with
          | none =>
            obtain ⟨last, hl⟩ := hrest scope none table
            exact ⟨last, .skip hclosed (.inl rfl) hl⟩
          | some owner =>
            obtain ⟨fields, hf⟩ := storedFields_total hnode scope owner (table.kindOf? owner)
            obtain ⟨last, hl⟩ := hrest scope (some owner) (table.withFields fields)
            exact ⟨last, .storage hs hf hl⟩
        · obtain ⟨last, hl⟩ := hrest scope within table
          exact ⟨last, .skip hclosed (.inr (by simpa using hs)) hl⟩

end Symbols

end PrintGen
