import PrintGen.Proofs.Scopes
import PrintGen.Syntax.Candidate

/-!
# Nodes without comments

Comments are nodes like others and may stand between any two children. Here they are taken out of a
tree, and everything else is kept as it is. Most readings of a node look for children by kind or by
label and do not notice. Those that take the first or the last child, or count children, notice a
comment that stands in the wrong place; `CommentsAside` says that none does.
-/

namespace PrintGen

/-! ## Lists of which some members are shown, in another form -/

section

variable {α : Type} {as : List α} {keep : α → Bool} {view : α → α}

theorem head?_shown (h : ∀ a ∈ as.head?, keep a = true) :
    ((as.filter keep).map view).head? = as.head?.map view := by
  cases as with
  | nil => rfl
  | cons a rest => rw [List.filter_cons_of_pos (h a rfl), List.map_cons, List.head?_cons]; rfl

theorem getLast?_shown (h : ∀ a ∈ as.getLast?, keep a = true) :
    ((as.filter keep).map view).getLast? = as.getLast?.map view := by
  rw [List.getLast?_eq_head?_reverse] at h ⊢
  rw [← List.map_reverse, ← List.filter_reverse, head?_shown h, List.getLast?_eq_head?_reverse]

theorem filterMap_shown {f : α → Option α} (hk : ∀ a ∈ as, f (view a) = (f a).map view)
    (hn : ∀ a ∈ as, keep a = false → f a = none) :
    ((as.filter keep).map view).filterMap f = (as.filterMap f).map view := by
  rw [List.filterMap_map, List.filterMap_filter, List.map_filterMap]
  refine List.filterMap_congr fun a ha => ?_
  cases h : keep a with
  | true => exact hk a ha
  | false => simp [hn a ha h]

end

section

variable {α : Type} {as : List α} {keep p : α → Bool} {view : α → α}
  (hp : ∀ a, p (view a) = p a) (hk : ∀ a ∈ as, p a = true → keep a = true)

include hp hk

theorem filter_shown : ((as.filter keep).map view).filter p = (as.filter p).map view := by
  have hcomp : p ∘ view = p := funext hp
  rw [List.filter_map, hcomp, List.filter_filter]
  refine congrArg (List.map view) (List.filter_congr fun a ha => ?_)
  cases h : p a with
  | false => rfl
  | true => exact hk a ha h

theorem eraseP_shown :
    ((as.filter keep).map view).eraseP p = ((as.eraseP p).filter keep).map view := by
  induction as with
  | nil => rfl
  | cons a rest ih =>
    obtain ⟨ha, hrest⟩ := List.forall_mem_cons.mp hk
    cases h : p a with
    | true => simp [ha h, hp, h]
    | false =>
      have ih := ih hrest
      cases hkept : keep a <;> simp [hkept, hp, h, ih]

theorem find?_shown : ((as.filter keep).map view).find? p = (as.find? p).map view := by
  rw [← List.head?_filter, filter_shown hp hk, List.head?_map, List.head?_filter]

theorem any_shown : ((as.filter keep).map view).any p = as.any p := by
  rw [← List.isSome_find?, find?_shown hp hk, Option.isSome_map, List.isSome_find?]

end

namespace Syntax

namespace Node

/-- Whether a node is a comment. -/
def isComment (node : Node) : Bool :=
  node.kind = .comment

mutual

/-- A node without the comments below it. -/
def uncommented : Node → Node
  | mk kind named missing start stop label children =>
    mk kind named missing start stop label (uncommentedAll children)

/-- The nodes of a list that are no comments, without the comments below them. -/
def uncommentedAll : List Node → List Node
  | [] => []
  | node :: rest =>
    if node.isComment then uncommentedAll rest else uncommented node :: uncommentedAll rest

end

/-- The nodes of a list that are no comments. -/
abbrev others (nodes : List Node) : List Node :=
  nodes.filter fun node => !node.isComment

theorem uncommentedAll_eq (nodes : List Node) :
    uncommentedAll nodes = (others nodes).map uncommented := by
  induction nodes with
  | nil => rfl
  | cons node rest ih =>
    rw [uncommentedAll, ih]
    cases h : node.isComment <;> simp [others, h]

/-- Whether the first child that the grammar names is a comment. -/
def leadsWithComment (node : Node) : Bool :=
  node.namedChildren.head?.any isComment

/-- The comments among the children of a node have no label and no children. -/
def Bare (node : Node) : Prop :=
  ∀ child ∈ node.children, child.isComment → child.label = none ∧ child.children.isEmpty

/-- Whether the alias and the name of an alias-qualified name can be told from comments: they have
labels, or no comment comes first or last. -/
def aliasAside (children : List Node) : Bool :=
  (children.find? fun child => child.label = some .aliasName).isSome &&
      (children.find? fun child => child.label = some .name).isSome ||
    !children.head?.any isComment && !children.getLast?.any isComment

/-- Whether no comment is counted as a type argument. -/
def argumentsAside (children : List Node) : Bool :=
  (children.find? fun child => child.kind = .typeArgumentList).all fun list =>
    !list.namedChildren.any isComment

mutual

/-- Whether comments stand aside in a name, in all parts of it that are read. -/
def nameAside : Node → Bool
  | mk (.name shape) _ _ _ _ _ children =>
    match shape with
    | .identifier => true
    | .generic => argumentsAside children
    | .qualified => namesAside children
    | .aliasQualified => aliasAside children && namesAside children
  | _ => true

/-- The same for a list of names. -/
def namesAside : List Node → Bool
  | [] => true
  | node :: rest => nameAside node && namesAside rest

end

/-- The comments among the children of a node stand where nothing else is looked for. None comes
first where the first entry counts, unless there is no other entry, and none disturbs a name that
is read at the node. -/
structure CommentsAside (node : Node) : Prop where
  bare : node.Bare
  entry : node.kind = .baseList ∨ node.kind = .typeWrapper ∨ node.kind = .primaryConstructorBase →
    node.leadsWithComment → ∀ child ∈ node.namedChildren, child.isComment
  used : node.kind = .attributeUse → node.leadsWithComment →
    ∃ child ∈ node.namedChildren, child.label = some .name
  names : ∀ name ∈ Symbols.namesRead node, name.nameAside

instance (node : Node) : Decidable node.CommentsAside :=
  decidable_of_iff
    ((∀ child ∈ node.children, child.isComment →
        child.label = none ∧ child.children.isEmpty) ∧
      (node.kind = .baseList ∨ node.kind = .typeWrapper ∨ node.kind = .primaryConstructorBase →
        node.leadsWithComment → ∀ child ∈ node.namedChildren, child.isComment) ∧
      (node.kind = .attributeUse → node.leadsWithComment →
        ∃ child ∈ node.namedChildren, child.label = some .name) ∧
      ∀ name ∈ Symbols.namesRead node, name.nameAside)
    ⟨fun ⟨hb, he, hu, hn⟩ => ⟨hb, he, hu, hn⟩, fun h => ⟨h.bare, h.entry, h.used, h.names⟩⟩

/-- All comments in a tree stand aside. -/
def AllAside (node : Node) : Prop :=
  ∀ inner ∈ node.preorder, inner.CommentsAside

instance (node : Node) : Decidable node.AllAside :=
  inferInstanceAs (Decidable (∀ inner ∈ node.preorder, inner.CommentsAside))

theorem AllAside.self {node : Node} (h : node.AllAside) : node.CommentsAside :=
  h node (mem_preorder_self node)

theorem AllAside.child {node child : Node} (h : node.AllAside) (hc : child ∈ node.children) :
    child.AllAside :=
  fun inner hi => h inner ((preorder_child hc).subset hi)

section

variable (node : Node)

@[simp] theorem uncommented_kind : node.uncommented.kind = node.kind := by cases node; rfl

@[simp] theorem uncommented_named : node.uncommented.named = node.named := by cases node; rfl

@[simp] theorem uncommented_start : node.uncommented.start = node.start := by cases node; rfl

@[simp] theorem uncommented_stop : node.uncommented.stop = node.stop := by cases node; rfl

@[simp] theorem uncommented_label : node.uncommented.label = node.label := by cases node; rfl

theorem uncommented_children :
    node.uncommented.children = (others node.children).map uncommented := by
  cases node
  exact uncommentedAll_eq _

theorem uncommented_namedChildren :
    node.uncommented.namedChildren = (others node.namedChildren).map uncommented := by
  have hcomp : named ∘ uncommented = named := funext uncommented_named
  rw [namedChildren, uncommented_children, List.filter_map, hcomp, namedChildren, others,
    List.filter_filter, others, List.filter_filter]
  refine congrArg (List.map uncommented) (List.filter_congr fun child _ => Bool.and_comm _ _)

end

/-! ## Children found by kind or by label -/

section

variable (node : Node) {kind : Kind} (hk : kind ≠ .comment)

include hk

theorem other_of_kind {child : Node} (h : child.kind = kind) : (!child.isComment) = true := by
  rw [isComment, h, decide_eq_false hk]
  rfl

theorem uncommented_childrenOf :
    node.uncommented.childrenOf kind = (node.childrenOf kind).map uncommented := by
  rw [childrenOf, uncommented_children]
  exact filter_shown (fun child => by rw [uncommented_kind])
    fun child _ h => other_of_kind hk (of_decide_eq_true h)

theorem uncommented_firstChild? :
    node.uncommented.firstChild? kind = (node.firstChild? kind).map uncommented := by
  rw [firstChild?, uncommented_children]
  exact find?_shown (fun child => by rw [uncommented_kind])
    fun child _ h => other_of_kind hk (of_decide_eq_true h)

theorem uncommented_hasChild : node.uncommented.hasChild kind = node.hasChild kind := by
  rw [hasChild, uncommented_children]
  exact any_shown (fun child => by rw [uncommented_kind])
    fun child _ h => other_of_kind hk (of_decide_eq_true h)

end

namespace Bare

variable {node : Node} (h : node.Bare)

include h

theorem other_of_label {child : Node} (hc : child ∈ node.children) {label : Label}
    (hl : child.label = some label) : (!child.isComment) = true := by
  cases hcomment : child.isComment with
  | false => rfl
  | true =>
    obtain ⟨hnone, _⟩ := h child hc hcomment
    rw [hnone] at hl
    cases hl

theorem childAt? (label : Label) :
    node.uncommented.childAt? label = (node.childAt? label).map uncommented := by
  rw [Node.childAt?, uncommented_children]
  exact find?_shown (fun child => by rw [uncommented_label])
    fun child hc hl => h.other_of_label hc (of_decide_eq_true hl)

theorem childAt?_or {label : Label} {other : Option Node} :
    (node.uncommented.childAt? label).or (other.map uncommented) =
      ((node.childAt? label).or other).map uncommented := by
  rw [h.childAt?]
  cases node.childAt? label <;> rfl

theorem nameNode? : node.uncommented.nameNode? = node.nameNode?.map uncommented := by
  rw [Node.nameNode?, h.childAt?, Node.nameNode?]
  have hfirst := uncommented_firstChild? node (show Kind.name .identifier ≠ .comment by decide)
  cases node.childAt? .name with
  | none => exact hfirst
  | some child =>
    simp only [Option.map_some, uncommented_kind]
    by_cases hk : child.kind = .name .identifier
    · rw [if_pos hk, if_pos hk]
      rfl
    · rw [if_neg hk, if_neg hk]
      exact hfirst

theorem parameterCount : node.uncommented.parameterCount = node.parameterCount := by
  rw [Node.parameterCount, uncommented_firstChild? node (by decide), h.childAt?_or,
    Node.parameterCount]
  cases (node.childAt? .parameters).or (node.firstChild? .parameterList) with
  | none => rfl
  | some list =>
    simp only [Option.map_some, uncommented_namedChildren]
    rw [filter_shown (fun child => by rw [uncommented_kind]) fun child _ hc => by
      simpa [isComment] using hc, List.length_map]

end Bare

/-! ## The first entry of a list -/

/-- What a wrapper wraps: its first named child, or the wrapper itself if there is none. -/
def inner (entry : Node) : Node :=
  entry.namedChildren.head?.getD entry

/-- A node if it is a name. -/
def asName? (node : Node) : Option Node :=
  if node.kind.isName then some node else none

@[simp] theorem uncommented_asName? (node : Node) :
    node.uncommented.asName? = node.asName?.map uncommented := by
  rw [asName?, uncommented_kind, asName?]
  cases node.kind.isName <;> rfl

theorem asName?_of_kind {node : Node} (h : node.kind.isName = false) : node.asName? = none := by
  rw [asName?, h]
  rfl

theorem asName?_comment {node : Node} (h : node.isComment) : node.asName? = none := by
  have hk : node.kind = .comment := of_decide_eq_true h
  exact asName?_of_kind (by rw [hk]; rfl)

namespace CommentsAside

variable {node : Node} (h : node.CommentsAside)

include h

/-- The first entry stays the first. If it is a comment, then nothing is left without comments. -/
theorem head?_namedChildren (hk : node.kind = .baseList ∨ node.kind = .typeWrapper ∨
      node.kind = .primaryConstructorBase) :
    node.uncommented.namedChildren.head? = node.namedChildren.head?.map uncommented ∨
      node.uncommented.namedChildren.head? = none ∧
        ∃ first, node.namedChildren.head? = some first ∧ first.isComment := by
  rw [uncommented_namedChildren]
  cases hl : node.namedChildren with
  | nil => exact .inl rfl
  | cons first rest =>
    cases hf : first.isComment with
    | false =>
      left
      simp [others, hf]
    | true =>
      have hlead : node.leadsWithComment := by
        rw [leadsWithComment, hl]
        exact hf
      have hall := h.entry hk hlead
      rw [hl] at hall
      have hnone : others (first :: rest) = [] :=
        List.filter_eq_nil_iff.mpr fun child hc => by simp [hall child hc]
      rw [hnone]
      exact .inr ⟨rfl, first, rfl, hf⟩

/-- A name in a wrapper is found with and without comments. -/
theorem inner_asName? (hk : node.kind = .typeWrapper ∨ node.kind = .primaryConstructorBase) :
    node.uncommented.inner.asName? = node.inner.asName?.map uncommented := by
  rw [inner, inner]
  rcases h.head?_namedChildren (.inr hk) with he | ⟨he, first, hf, hc⟩
  · rw [he]
    cases node.namedChildren.head? with
    | none => exact uncommented_asName? node
    | some first => exact uncommented_asName? first
  · have hno : node.kind.isName = false := by rcases hk with hk | hk <;> rw [hk] <;> rfl
    rw [he, hf, Option.getD_none, Option.getD_some, asName?_comment hc,
      asName?_of_kind ((congrArg Kind.isName (uncommented_kind node)).trans hno), Option.map_none]

end CommentsAside

theorem baseName?_eq (node : Node) :
    node.baseName? = (node.firstChild? .baseList).bind fun list =>
      list.namedChildren.head?.bind fun entry =>
        (if entry.kind = .typeWrapper || entry.kind = .primaryConstructorBase then entry.inner
          else entry).asName? :=
  rfl

theorem firstChild?_kind {node child : Node} {kind : Kind}
    (h : node.firstChild? kind = some child) : child.kind = kind := by
  simpa using List.find?_some h

theorem childrenOf_kind {node child : Node} {kind : Kind} (h : child ∈ node.childrenOf kind) :
    child.kind = kind := by
  simpa using (List.mem_filter.mp h).2

theorem AllAside.baseName? {node : Node} (h : node.AllAside) :
    node.uncommented.baseName? = node.baseName?.map uncommented := by
  rw [baseName?_eq, baseName?_eq, uncommented_firstChild? node (by decide)]
  cases hlist : node.firstChild? .baseList with
  | none => rfl
  | some list =>
    have hin := h.child (firstChild?_mem hlist)
    simp only [Option.map_some, Option.bind_some]
    rcases hin.self.head?_namedChildren (.inl (firstChild?_kind hlist)) with
      he | ⟨he, first, hf, hc⟩
    · rw [he]
      cases hentry : list.namedChildren.head? with
      | none => rfl
      | some entry =>
        have hchild : entry ∈ list.children := namedChildren_mem (List.mem_of_mem_head? hentry)
        simp only [Option.map_some, Option.bind_some, uncommented_kind]
        by_cases hw : (entry.kind = .typeWrapper || entry.kind = .primaryConstructorBase) = true
        · rw [if_pos hw, if_pos hw]
          exact (hin.child hchild).self.inner_asName? (by simpa using hw)
        · rw [if_neg hw, if_neg hw]
          exact uncommented_asName? entry
    · have hw : ¬(first.kind = .typeWrapper || first.kind = .primaryConstructorBase) = true := by
        rw [of_decide_eq_true hc]
        decide
      rw [he, hf, Option.bind_none, Option.bind_some, if_neg hw, asName?_comment hc,
        Option.map_none]

/-! ## What a declaration says -/

theorem uncommented_typeKind? (node : Node) : node.uncommented.typeKind? = node.typeKind? := by
  rw [typeKind?, uncommented_kind, uncommented_hasChild node (by decide), typeKind?]

theorem uncommented_declarators? (node : Node) :
    node.uncommented.declarators? = node.declarators?.map (List.map uncommented) := by
  rw [declarators?, uncommented_firstChild? node (by decide), declarators?, Option.map_map,
    Option.map_map]
  refine congrArg (Option.map · _) (funext fun declaration => ?_)
  exact uncommented_childrenOf declaration (by decide)

theorem uncommented_isAutoProperty (node : Node) :
    node.uncommented.isAutoProperty = node.isAutoProperty := by
  rw [isAutoProperty, uncommented_firstChild? node (by decide), isAutoProperty]
  cases node.firstChild? .accessorList with
  | none => rfl
  | some list =>
    have hbody : ∀ a : Node,
        (a.uncommented.hasChild .block || a.uncommented.hasChild .arrowClause) =
        (a.hasChild .block || a.hasChild .arrowClause) := by
      intro a
      rw [uncommented_hasChild a (by decide), uncommented_hasChild a (by decide)]
    simp only [Option.map_some,
      uncommented_childrenOf list (show Kind.accessorDeclaration ≠ .comment by decide),
      List.isEmpty_map, List.any_map, Function.comp_def, hbody]

/-- The name of an attribute is the same node with and without comments. -/
theorem CommentsAside.attributeName? {node : Node} (h : node.CommentsAside)
    (hk : node.kind = .attributeUse) :
    (node.uncommented.namedChildren.head?.map fun first =>
        (node.uncommented.childAt? .name).getD first) =
      (node.namedChildren.head?.map fun first => (node.childAt? .name).getD first).map
        uncommented := by
  rw [uncommented_namedChildren, h.bare.childAt?]
  cases hl : node.namedChildren with
  | nil => rfl
  | cons first rest =>
    cases hf : first.isComment with
    | false =>
      simp only [others, List.filter_cons, hf, Bool.not_false, if_true, List.map_cons,
        List.head?_cons, Option.map_some]
      cases node.childAt? .name <;> rfl
    | true =>
      -- The label decides, and what it stands on keeps the use from being empty.
      obtain ⟨labelled, hmem, hlabel⟩ := h.used hk (by rw [leadsWithComment, hl]; exact hf)
      have hchild : labelled ∈ node.children := namedChildren_mem hmem
      have hsome : ∃ name, node.childAt? .name = some name := by
        rw [← Option.isSome_iff_exists, Node.childAt?, List.find?_isSome]
        exact ⟨labelled, hchild, decide_eq_true hlabel⟩
      have hkept : labelled ∈ others (first :: rest) :=
        List.mem_filter.mpr ⟨hl ▸ hmem, h.bare.other_of_label hchild hlabel⟩
      obtain ⟨name, hname⟩ := hsome
      obtain ⟨head, tail, hcons⟩ := List.exists_cons_of_ne_nil (List.ne_nil_of_mem hkept)
      rw [hname, hcons]
      rfl

theorem attributeNames_eq (node : Node) :
    node.attributeNames = (node.childrenOf .attributeList).flatMap fun list =>
      (list.childrenOf .attributeUse).filterMap fun use =>
        use.namedChildren.head?.map fun first => (use.childAt? .name).getD first := by
  rw [attributeNames]
  congr 1
  funext list
  congr 1
  funext use
  cases use.namedChildren <;> rfl

theorem AllAside.attributeNames {node : Node} (h : node.AllAside) :
    node.uncommented.attributeNames = node.attributeNames.map uncommented := by
  rw [attributeNames_eq, attributeNames_eq, uncommented_childrenOf node (by decide),
    List.flatMap_map, List.map_flatMap]
  refine List.flatMap_congr fun list hlist => ?_
  have hin := h.child (childrenOf_mem hlist)
  rw [uncommented_childrenOf list (by decide), List.filterMap_map, List.map_filterMap]
  refine List.filterMap_congr fun use huse => ?_
  exact (hin.child (childrenOf_mem huse)).self.attributeName? (childrenOf_kind huse)

end Node

/-! ## Texts and names -/

/-- A source tree without comments. -/
def SourceTree.uncommented (tree : SourceTree) : SourceTree :=
  { tree with root := tree.root.uncommented }

/-- A part of a name without comments. -/
def NamePart.uncommented (part : NamePart) : NamePart :=
  ⟨part.node.uncommented, part.name⟩

namespace SourceTree

variable (tree : SourceTree)

@[simp] theorem uncommented_text (node : Node) :
    tree.uncommented.text node.uncommented = tree.text node := by
  rw [text, Node.uncommented_start, Node.uncommented_stop]
  rfl

@[simp] theorem uncommented_textOf? (node : Option Node) :
    tree.uncommented.textOf? (node.map Node.uncommented) = tree.textOf? node := by
  cases node with
  | none => rfl
  | some node => exact tree.uncommented_text node

@[simp] theorem uncommented_texts (nodes : List Node) :
    tree.uncommented.texts (nodes.map Node.uncommented) = tree.texts nodes := by
  rw [texts, List.mapM_map, texts]
  exact mapM_congr_mem fun node _ => tree.uncommented_text node

theorem uncommented_modifiers (node : Node) :
    tree.uncommented.modifiers node.uncommented = tree.modifiers node := by
  rw [modifiers, Node.uncommented_childrenOf node (by decide), uncommented_texts, modifiers]

variable {node : Node}

theorem uncommented_declaredName (h : node.Bare) :
    tree.uncommented.declaredName node.uncommented = tree.declaredName node := by
  rw [declaredName, h.nameNode?, uncommented_textOf?, declaredName]

theorem uncommented_returnType (h : node.Bare) :
    tree.uncommented.returnType node.uncommented = tree.returnType node := by
  rw [returnType, h.childAt? .type, h.childAt?_or, returnType]
  cases (node.childAt? .returns).or (node.childAt? .type) with
  | none => rfl
  | some type => exact tree.uncommented_text type

theorem uncommented_typeParameters (h : node.AllAside) :
    tree.uncommented.typeParameters node.uncommented = tree.typeParameters node := by
  rw [typeParameters, Node.uncommented_firstChild? node (by decide), typeParameters]
  cases hlist : node.firstChild? .typeParameterList with
  | none => rfl
  | some list =>
    have hin := h.child (Node.firstChild?_mem hlist)
    simp only [Option.map_some,
      Node.uncommented_childrenOf list (show Kind.typeParameter ≠ .comment by decide),
      List.mapM_map]
    refine mapM_congr_mem fun parameter hp => ?_
    have hparameter := (hin.child (Node.childrenOf_mem hp)).self.bare
    rw [Function.comp_apply, Node.uncommented_firstChild? parameter (by decide),
      hparameter.childAt?_or, uncommented_textOf?]

end SourceTree

/-- The parts of a name of which the comments are left out. -/
abbrev NamePart.others (parts : List NamePart) : List NamePart :=
  (parts.filter fun part => !part.node.isComment).map uncommented

namespace NamePart

variable {parts : List NamePart} (h : ∀ part ∈ parts, part.node.isComment → part.node.label = none)

include h

theorem others_at? (label : Label) :
    at? label (others parts) = (at? label parts).map uncommented := by
  refine find?_shown (fun part => ?_) fun part hp hl => ?_
  · simp [uncommented]
  · cases hc : part.node.isComment with
    | false => rfl
    | true =>
      rw [h part hp hc] at hl
      cases of_decide_eq_true hl

theorem others_qualifierAndName :
    qualifierAndName (others parts) =
      (qualifierAndName parts).map (Prod.map uncommented uncommented) := by
  have hnames : (others parts).filter (fun part => part.node.named && part.node.kind.isName) =
      (parts.filter fun part => part.node.named && part.node.kind.isName).map uncommented := by
    refine filter_shown (fun part => by simp [uncommented]) fun part _ hname => ?_
    rw [Bool.and_eq_true] at hname
    cases hc : part.node.isComment with
    | false => rfl
    | true =>
      rw [of_decide_eq_true hc] at hname
      cases hname.2
  simp only [qualifierAndName, others_at? h, hnames, List.head?_map, List.getLast?_map]
  generalize parts.filter (fun part => part.node.named && part.node.kind.isName) = names
  cases at? .qualifier parts <;> cases at? .name parts <;>
    cases names.head? <;> cases names.getLast? <;> rfl

theorem others_aliasAndName
    (ha : (at? .aliasName parts).isSome ∧ (at? .name parts).isSome ∨
      (∀ first ∈ parts.head?, ¬first.node.isComment) ∧
        ∀ last ∈ parts.getLast?, ¬last.node.isComment) :
    aliasAndName (others parts) = (aliasAndName parts).map (Prod.map uncommented uncommented) := by
  simp only [aliasAndName, others_at? h]
  rcases ha with ⟨haliased, hname⟩ | ⟨hfirst, hlast⟩
  · obtain ⟨aliasName, ha⟩ := Option.isSome_iff_exists.mp haliased
    obtain ⟨name, hn⟩ := Option.isSome_iff_exists.mp hname
    rw [ha, hn]
    rfl
  · rw [others, head?_shown fun part hp => by simpa using hfirst part hp,
      getLast?_shown fun part hp => by simpa using hlast part hp]
    cases at? .aliasName parts <;> cases at? .name parts <;>
      cases parts.head? <;> cases parts.getLast? <;> rfl

end NamePart

theorem argumentCount_others {children : List Node} (h : Node.argumentsAside children) :
    argumentCount ((Node.others children).map Node.uncommented) = argumentCount children := by
  have hfind : ((Node.others children).map Node.uncommented).find?
        (fun child => child.kind = .typeArgumentList) =
      (children.find? fun child => child.kind = .typeArgumentList).map Node.uncommented :=
    find?_shown (fun child => by rw [Node.uncommented_kind]) fun child _ hk =>
      Node.other_of_kind (by decide) (of_decide_eq_true hk)
  rw [argumentCount, hfind, argumentCount]
  cases hlist : children.find? fun child => child.kind = .typeArgumentList with
  | none => rfl
  | some list =>
    rw [Node.argumentsAside, hlist, Option.all_some, Bool.not_eq_true', List.any_eq_false] at h
    have hall : Node.others list.namedChildren = list.namedChildren :=
      List.filter_eq_self.mpr fun child hc => by simpa using h child hc
    rw [Option.map_some]
    change list.uncommented.namedChildren.length = list.namedChildren.length
    rw [Node.uncommented_namedChildren, hall, List.length_map]

namespace SourceTree

theorem aliasAside_parts (tree : SourceTree) {children : List Node}
    (h : Node.aliasAside children) :
    (NamePart.at? .aliasName (tree.nameParts children)).isSome ∧
        (NamePart.at? .name (tree.nameParts children)).isSome ∨
      (∀ first ∈ (tree.nameParts children).head?, ¬first.node.isComment) ∧
        ∀ last ∈ (tree.nameParts children).getLast?, ¬last.node.isComment := by
  rw [at?_isSome, at?_isSome]
  simp only [Node.aliasAside, Bool.or_eq_true, Bool.and_eq_true] at h
  refine h.imp_right fun ⟨hfirst, hlast⟩ => ?_
  rw [← nameParts_node tree children, List.head?_map, Option.any_map] at hfirst
  rw [← nameParts_node tree children, List.getLast?_map, Option.any_map] at hlast
  refine ⟨fun part hp => ?_, fun part hp => ?_⟩
  · rw [Option.mem_def.mp hp] at hfirst
    simpa using hfirst
  · rw [Option.mem_def.mp hp] at hlast
    simpa using hlast

mutual

/-- A name is read the same with and without comments. -/
theorem uncommented_nameOf (tree : SourceTree) : ∀ node : Node, node.AllAside → node.nameAside →
    tree.uncommented.nameOf node.uncommented = tree.nameOf node
  | .mk kind named missing start stop label children, h, ha => by
    have hchildren : ∀ child ∈ children, child.AllAside := fun child hc => h.child hc
    have hparts := uncommented_nameParts tree children hchildren
    have hlabel : ∀ part ∈ tree.nameParts children, part.node.isComment →
        part.node.label = none := fun part hp hc =>
      (h.self.bare part.node (mem_nameParts hp).1 hc).1
    cases kind with
    | name shape =>
      cases shape with
      | identifier =>
        have htext := tree.uncommented_text
          (.mk (.name .identifier) named missing start stop label children)
        rw [Node.uncommented] at htext
        simp only [Node.uncommented, nameOf, htext]
      | generic =>
        have hname : (Node.uncommentedAll children).find?
              (fun child => child.kind = .name .identifier) =
            (children.find? fun child => child.kind = .name .identifier).map Node.uncommented :=
          Node.uncommented_firstChild? (.mk (.name .generic) named missing start stop label children)
            (show Kind.name .identifier ≠ .comment by decide)
        have hcount : argumentCount (Node.uncommentedAll children) = argumentCount children := by
          rw [Node.uncommentedAll_eq, argumentCount_others ha]
        simp only [Node.uncommented, nameOf, hname, uncommented_textOf?, hcount]
      | qualified =>
        simp only [Node.uncommented, nameOf, hparts ha, NamePart.others_qualifierAndName hlabel]
        cases NamePart.qualifierAndName (tree.nameParts children) <;> rfl
      | aliasQualified =>
        rw [Node.nameAside, Bool.and_eq_true] at ha
        simp only [Node.uncommented, nameOf, hparts ha.2]
        rw [NamePart.others_aliasAndName hlabel (aliasAside_parts tree ha.1)]
        cases NamePart.aliasAndName (tree.nameParts children) with
        | error fault => rfl
        | ok parts =>
          simp only [Except.map, except_ok_bind, Prod.map, NamePart.uncommented, uncommented_text]
    | _ => simp only [Node.uncommented, nameOf]

theorem uncommented_nameParts (tree : SourceTree) : ∀ nodes : List Node,
    (∀ node ∈ nodes, node.AllAside) → Node.namesAside nodes →
    tree.uncommented.nameParts (Node.uncommentedAll nodes) = NamePart.others (tree.nameParts nodes)
  | [], _, _ => by
    rw [Node.uncommentedAll, nameParts, nameParts]
    rfl
  | node :: rest, h, ha => by
    obtain ⟨hnode, hrest⟩ := List.forall_mem_cons.mp h
    rw [Node.namesAside, Bool.and_eq_true] at ha
    have ih := uncommented_nameParts tree rest hrest ha.2
    rw [Node.uncommentedAll, nameParts, NamePart.others]
    cases hc : node.isComment with
    | true =>
      rw [if_pos rfl, List.filter_cons_of_neg (by simp [hc])]
      exact ih
    | false =>
      rw [if_neg (by decide), List.filter_cons_of_pos (by simp [hc]), List.map_cons, nameParts, ih,
        uncommented_nameOf tree node hnode ha.1]
      rfl

end

end SourceTree

end Syntax

namespace Symbols

open Syntax

/-- The name that a child of a using directive stands for. -/
def nameOfChild? (child : Node) : Option Node :=
  if child.named then (if child.kind = .typeWrapper then child.inner else child).asName? else none

theorem usingNames_eq (children : List Node) :
    usingNames children = children.filterMap nameOfChild? := by
  rw [usingNames, ← List.filterMap_eq_filter, List.filterMap_map, List.filterMap_filter]
  rfl

end Symbols

end PrintGen
