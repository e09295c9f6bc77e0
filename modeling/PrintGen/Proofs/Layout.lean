import PrintGen.Proofs.TwinBinding

/-!
# Trees that read alike

Two trees may correspond node by node although their nodes lie in other places of other texts. Only
few texts are ever read: those of identifiers and modifiers, the aliases, the names of type
parameters and the return types of methods. Where these are the same, every declaration says the
same on both sides.
-/

namespace PrintGen

open Syntax Symbols

/-! ## The relation -/

namespace Syntax

/-- The text of a node, if it can be read. -/
def SourceTree.letters? (tree : SourceTree) (node : Node) : Option String :=
  (tree.text node).toOption

namespace Node

/-- The part of an alias-qualified name that is read as its alias. -/
def aliasPart? (node : Node) : Option Node :=
  if (node.childAt? .aliasName).isSome && (node.childAt? .name).isSome then
    node.childAt? .aliasName
  else node.children.head?

/-- The part of a using directive that is read as its alias, unless that has a node of its own. -/
def directiveAlias? (node : Node) : Option Node :=
  if (node.firstChild? .nameEquals).isNone && node.hasChild .equalsToken then
    (node.childAt? .name).or (usingNames node.children).head?
  else none

/-- The nodes whose texts are read where a node is looked at. -/
def textNodes (node : Node) : List Node :=
  match node.kind with
  | .name .identifier => [node]
  | .modifier => [node]
  | .name .aliasQualified => node.aliasPart?.toList
  | .typeParameter => ((node.childAt? .name).or (node.firstChild? (.name .identifier))).toList
  | .methodDeclaration => ((node.childAt? .returns).or (node.childAt? .type)).toList
  | .usingDirective => node.directiveAlias?.toList
  | _ => []

/-- The names that a using directive may have as its target, by child. A target that is not found is
quoted, so it matters whether its text can be read. -/
def targetNodes (node : Node) : List (List Node) :=
  if node.kind = .usingDirective then node.children.map fun child => usingNames [child] else []

end Node

/-- Whether nodes of this kind are told apart by their keys. -/
def Kind.isKeyed (kind : Kind) : Bool :=
  kind.isTypeDeclaration || kind = .fieldDeclaration

/-- Two nodes are of the same kind, and what is read here is the same. -/
structure ReadsAlikeHere (tree other : SourceTree) (node node' : Node) : Prop where
  kind : node'.kind = node.kind
  named : node'.named = node.named
  missing : node'.missing = node.missing
  label : node'.label = node.label
  texts : node'.textNodes.map other.letters? = node.textNodes.map tree.letters?
  targets : (node'.targetNodes.map fun names => names.map fun n => (other.letters? n).isSome) =
    node.targetNodes.map fun names => names.map fun n => (tree.letters? n).isSome

instance (tree other : SourceTree) (node node' : Node) :
    Decidable (ReadsAlikeHere tree other node node') :=
  decidable_of_iff (node'.kind = node.kind ∧ node'.named = node.named ∧
      node'.missing = node.missing ∧ node'.label = node.label ∧
      node'.textNodes.map other.letters? = node.textNodes.map tree.letters? ∧
      (node'.targetNodes.map fun names => names.map fun n => (other.letters? n).isSome) =
        node.targetNodes.map fun names => names.map fun n => (tree.letters? n).isSome)
    ⟨fun ⟨hk, hn, hm, hl, hx, ht⟩ => ⟨hk, hn, hm, hl, hx, ht⟩,
      fun h => ⟨h.kind, h.named, h.missing, h.label, h.texts, h.targets⟩⟩

mutual

/-- Whether two trees of nodes read alike, node by node. -/
def readsAlike (tree other : SourceTree) : Node → Node → Bool
  | node@(.mk _ _ _ _ _ _ children), node'@(.mk _ _ _ _ _ _ children') =>
    decide (ReadsAlikeHere tree other node node') && readAlike tree other children children'

/-- Whether two lists of trees of nodes read alike, one by one. -/
def readAlike (tree other : SourceTree) : List Node → List Node → Bool
  | [], [] => true
  | node :: rest, node' :: rest' =>
    readsAlike tree other node node' && readAlike tree other rest rest'
  | _, _ => false

end

/-- Two trees of nodes that correspond: the same kinds, flags, labels and children, and the same
texts where any are read. -/
def ReadsAlike (tree other : SourceTree) (node node' : Node) : Prop :=
  readsAlike tree other node node' = true

instance (tree other : SourceTree) (node node' : Node) :
    Decidable (ReadsAlike tree other node node') :=
  inferInstanceAs (Decidable (_ = true))

section

variable {tree other : SourceTree}

theorem readAlike_iff {nodes nodes' : List Node} : readAlike tree other nodes nodes' = true ↔
    List.Forall₂ (ReadsAlike tree other) nodes nodes' := by
  induction nodes generalizing nodes' with
  | nil =>
    cases nodes' with
    | nil => simp [readAlike]
    | cons => simp [readAlike]
  | cons node rest ih =>
    cases nodes' with
    | nil => simp [readAlike]
    | cons node' rest' => simp [readAlike, ih, ReadsAlike]

theorem readsAlike_iff {node node' : Node} : ReadsAlike tree other node node' ↔
    ReadsAlikeHere tree other node node' ∧
      List.Forall₂ (ReadsAlike tree other) node.children node'.children := by
  cases node
  cases node'
  rw [ReadsAlike, readsAlike, Bool.and_eq_true, decide_eq_true_eq, readAlike_iff]
  rfl

theorem letters?_eq (h : other.content = tree.content) : other.letters? = tree.letters? := by
  funext node
  rw [SourceTree.letters?, SourceTree.letters?, SourceTree.text, SourceTree.text, h]

mutual

theorem readsAlike_self (h : other.content = tree.content) :
    ∀ node : Node, ReadsAlike tree other node node
  | .mk _ _ _ _ _ _ children =>
    readsAlike_iff.mpr ⟨⟨rfl, rfl, rfl, rfl, by rw [letters?_eq h], by rw [letters?_eq h]⟩,
      readAlike_self h children⟩

theorem readAlike_self (h : other.content = tree.content) :
    ∀ nodes : List Node, List.Forall₂ (ReadsAlike tree other) nodes nodes
  | [] => .nil
  | node :: rest => .cons (readsAlike_self h node) (readAlike_self h rest)

end

theorem text_eq_of_letters {node node' : Node} (h : other.letters? node' = tree.letters? node) :
    other.text node' = tree.text node := by
  rw [SourceTree.letters?, SourceTree.letters?, SourceTree.text, SourceTree.text] at h
  rw [SourceTree.text, SourceTree.text]
  cases hs : Text.slice? tree.content node.start node.stop with
  | none =>
    rw [hs] at h
    cases hs' : Text.slice? other.content node'.start node'.stop with
    | none => rfl
    | some cs => rw [hs'] at h; cases h
  | some cs =>
    rw [hs] at h
    cases hs' : Text.slice? other.content node'.start node'.stop with
    | none => rw [hs'] at h; cases h
    | some cs' =>
      rw [hs'] at h
      exact congrArg Except.ok (Option.some.inj h)

theorem textOf_eq_of_letters {node? node'? : Option Node}
    (h : node'?.toList.map other.letters? = node?.toList.map tree.letters?) :
    other.textOf? node'? = tree.textOf? node? := by
  cases node? with
  | none =>
    cases node'? with
    | none => rfl
    | some => cases h
  | some node =>
    cases node'? with
    | none => cases h
    | some node' => exact text_eq_of_letters (List.head_eq_of_cons_eq h)

end

/-! ## What nodes say -/

namespace ReadsAlike

variable {tree other : SourceTree} {node node' : Node} (h : ReadsAlike tree other node node')

include h

theorem here : ReadsAlikeHere tree other node node' :=
  (readsAlike_iff.mp h).1

theorem children : List.Forall₂ (ReadsAlike tree other) node.children node'.children :=
  (readsAlike_iff.mp h).2

theorem childAt? (label : Label) :
    Option.Rel (ReadsAlike tree other) (node.childAt? label) (node'.childAt? label) :=
  forall₂_find? h.children fun _ _ hc => by rw [hc.here.label]

theorem firstChild? (kind : Kind) :
    Option.Rel (ReadsAlike tree other) (node.firstChild? kind) (node'.firstChild? kind) :=
  forall₂_find? h.children fun _ _ hc => by rw [hc.here.kind]

theorem childrenOf (kind : Kind) :
    List.Forall₂ (ReadsAlike tree other) (node.childrenOf kind) (node'.childrenOf kind) :=
  forall₂_filter h.children fun _ _ hc => by rw [hc.here.kind]

theorem namedChildren :
    List.Forall₂ (ReadsAlike tree other) node.namedChildren node'.namedChildren :=
  forall₂_filter h.children fun _ _ hc => hc.here.named

theorem hasChild (kind : Kind) : node'.hasChild kind = node.hasChild kind :=
  forall₂_any h.children fun _ _ hc => by rw [hc.here.kind]

theorem typeKind? : node'.typeKind? = node.typeKind? := by
  rw [Node.typeKind?, Node.typeKind?, h.here.kind, h.hasChild]

/-- The text of an identifier or of a modifier is read itself. -/
theorem text (hk : node.kind = .name .identifier ∨ node.kind = .modifier) :
    other.text node' = tree.text node := by
  have htexts := h.here.texts
  rcases hk with hk | hk <;>
  · rw [Node.textNodes, Node.textNodes, h.here.kind, hk] at htexts
    exact text_eq_of_letters (List.head_eq_of_cons_eq htexts)

omit h in
/-- The text of an identifier that may be absent. -/
theorem textOf?_identifier {name name' : Option Node}
    (hn : Option.Rel (ReadsAlike tree other) name name')
    (hk : ∀ n, name = some n → n.kind = .name .identifier) :
    other.textOf? name' = tree.textOf? name := by
  cases hn with
  | none => rfl
  | some hc => exact hc.text (.inl (hk _ rfl))

theorem declaredName : other.declaredName node' = tree.declaredName node := by
  have hfirst := h.firstChild? (.name .identifier)
  have hnode : Option.Rel (ReadsAlike tree other) node.nameNode? node'.nameNode? := by
    have hlabel := h.childAt? .name
    rw [Node.nameNode?, Node.nameNode?]
    generalize node.childAt? .name = c at hlabel ⊢
    generalize node'.childAt? .name = c' at hlabel ⊢
    cases hlabel with
    | none => exact hfirst
    | some hc =>
      dsimp only
      rw [hc.here.kind]
      split
      · exact .some hc
      · exact hfirst
  exact textOf?_identifier hnode fun name hname => Node.nameNode?_kind hname

theorem modifiers : other.modifiers node' = tree.modifiers node := by
  rw [SourceTree.modifiers, SourceTree.modifiers, SourceTree.texts, SourceTree.texts]
  refine mapM_eq_of_forall₂ (forall₂_imp_mem (h.childrenOf .modifier) fun m hm _ _ hc => ?_)
  exact hc.text (.inr (of_decide_eq_true (List.mem_filter.mp hm).2))

theorem typeParameters : other.typeParameters node' = tree.typeParameters node := by
  have hlist := h.firstChild? .typeParameterList
  rw [SourceTree.typeParameters, SourceTree.typeParameters]
  generalize node.firstChild? .typeParameterList = l at hlist ⊢
  generalize node'.firstChild? .typeParameterList = l' at hlist ⊢
  cases hlist with
  | none => rfl
  | some hl =>
    refine mapM_eq_of_forall₂ (forall₂_imp_mem (hl.childrenOf .typeParameter) fun q hq _ _ hc => ?_)
    have hk : q.kind = .typeParameter := of_decide_eq_true (List.mem_filter.mp hq).2
    have htexts := hc.here.texts
    rw [Node.textNodes, Node.textNodes, hc.here.kind, hk] at htexts
    exact textOf_eq_of_letters htexts

theorem returnType (hk : node.kind = .methodDeclaration) :
    other.returnType node' = tree.returnType node := by
  have htexts := h.here.texts
  rw [Node.textNodes, Node.textNodes, h.here.kind, hk] at htexts
  have htext := textOf_eq_of_letters htexts
  have hrel := optionRel_or (h.childAt? .returns) (h.childAt? .type)
  rw [SourceTree.returnType, SourceTree.returnType]
  generalize (node.childAt? .returns).or (node.childAt? .type) = c at hrel htext ⊢
  generalize (node'.childAt? .returns).or (node'.childAt? .type) = c' at hrel htext ⊢
  cases hrel with
  | none => rfl
  | some => exact htext

theorem parameterCount : node'.parameterCount = node.parameterCount := by
  have hrel := optionRel_or (h.childAt? .parameters) (h.firstChild? .parameterList)
  rw [Node.parameterCount, Node.parameterCount]
  generalize (node.childAt? .parameters).or (node.firstChild? .parameterList) = l at hrel ⊢
  generalize (node'.childAt? .parameters).or (node'.firstChild? .parameterList) = l' at hrel ⊢
  cases hrel with
  | none => rfl
  | some hl =>
    refine (forall₂_filter hl.namedChildren fun _ _ hc => ?_).length_eq.symm
    rw [hc.here.kind]

theorem isAutoProperty : node'.isAutoProperty = node.isAutoProperty := by
  have hlist := h.firstChild? .accessorList
  rw [Node.isAutoProperty, Node.isAutoProperty]
  generalize node.firstChild? .accessorList = l at hlist ⊢
  generalize node'.firstChild? .accessorList = l' at hlist ⊢
  cases hlist with
  | none => rfl
  | some hl =>
    have haccessors := hl.childrenOf .accessorDeclaration
    dsimp only
    rw [forall₂_isEmpty haccessors, forall₂_any haccessors fun _ _ hc => by
      rw [hc.hasChild, hc.hasChild]]

theorem baseName? : Option.Rel (ReadsAlike tree other) node.baseName? node'.baseName? := by
  have hlist := h.firstChild? .baseList
  rw [Node.baseName?, Node.baseName?]
  generalize node.firstChild? .baseList = l at hlist ⊢
  generalize node'.firstChild? .baseList = l' at hlist ⊢
  cases hlist with
  | none => exact .none
  | @some l l' hl =>
    have hentry := forall₂_head? hl.namedChildren
    simp only [Option.bind_eq_bind, Option.bind_some]
    generalize l.namedChildren.head? = e at hentry ⊢
    generalize l'.namedChildren.head? = e' at hentry ⊢
    cases hentry with
    | none => exact .none
    | @some e e' he =>
      simp only [Option.bind_some, he.here.kind]
      have hname : ReadsAlike tree other
          (if e.kind = .typeWrapper || e.kind = .primaryConstructorBase then
            e.namedChildren.head?.getD e else e)
          (if e.kind = .typeWrapper || e.kind = .primaryConstructorBase then
            e'.namedChildren.head?.getD e' else e') := by
        split
        · exact optionRel_getD (forall₂_head? he.namedChildren) he
        · exact he
      rw [hname.here.kind]
      generalize (if e.kind = .typeWrapper || e.kind = .primaryConstructorBase then
        e.namedChildren.head?.getD e else e) = name at hname ⊢
      split
      · exact .some hname
      · exact .none

theorem attributeNames :
    List.Forall₂ (ReadsAlike tree other) node.attributeNames node'.attributeNames := by
  refine List.rel_flatMap (h.childrenOf .attributeList) fun list list' hlist => ?_
  refine List.rel_filterMap (fun use use' huse => ?_) (hlist.childrenOf .attributeUse)
  have hnamed := huse.namedChildren
  generalize use.namedChildren = ns at hnamed ⊢
  generalize use'.namedChildren = ns' at hnamed ⊢
  cases hnamed with
  | nil => exact .none
  | cons hfirst _ => exact .some (optionRel_getD (huse.childAt? .name) hfirst)

theorem declarators : List.Forall₂ (ReadsAlike tree other) (node.declarators?.getD [])
    (node'.declarators?.getD []) := by
  have hrel := h.firstChild? .variableDeclaration
  rw [Node.declarators?, Node.declarators?]
  generalize node.firstChild? .variableDeclaration = d at hrel ⊢
  generalize node'.firstChild? .variableDeclaration = d' at hrel ⊢
  cases hrel with
  | none => exact .nil
  | some hd => exact hd.childrenOf .variableDeclarator

end ReadsAlike

/-! ## Names -/

/-- Two parts of names that read alike and write the same name. -/
structure SamePart (tree other : SourceTree) (part part' : NamePart) : Prop where
  node : ReadsAlike tree other part.node part'.node
  name : part'.name = part.name

namespace NamePart

/-- The labelled parts if both are there, else the first and the last one. -/
def choose (qualifier name first last : Option NamePart) : Except Fault (NamePart × NamePart) :=
  match qualifier, name with
  | some qualifier, some name => .ok (qualifier, name)
  | _, _ =>
    match first, last with
    | some first, some last => .ok (first, last)
    | _, _ => .error .missingNamePart

theorem qualifierAndName_eq (parts : List NamePart) : qualifierAndName parts =
    choose (at? .qualifier parts) (at? .name parts)
      (parts.filter fun part => part.node.named && part.node.kind.isName).head?
      (parts.filter fun part => part.node.named && part.node.kind.isName).getLast? := by
  rw [qualifierAndName]
  cases at? .qualifier parts <;> cases at? .name parts <;> rfl

theorem aliasAndName_eq (parts : List NamePart) : aliasAndName parts =
    choose (at? .aliasName parts) (at? .name parts) parts.head? parts.getLast? := by
  rw [aliasAndName]
  cases at? .aliasName parts <;> cases at? .name parts <;> rfl

theorem choose_first {qualifier name first last : Option NamePart} {a b : NamePart}
    (h : choose qualifier name first last = .ok (a, b)) :
    (if qualifier.isSome && name.isSome then qualifier else first) = some a := by
  cases qualifier <;> cases name <;> cases first <;> cases last <;> cases h <;> rfl

section

variable {tree other : SourceTree}

theorem choose_alike {qualifier name first last qualifier' name' first' last' : Option NamePart}
    (hq : Option.Rel (SamePart tree other) qualifier qualifier')
    (hn : Option.Rel (SamePart tree other) name name')
    (hf : Option.Rel (SamePart tree other) first first')
    (hl : Option.Rel (SamePart tree other) last last') :
    SameResult (fun p p' => SamePart tree other p.1 p'.1 ∧ SamePart tree other p.2 p'.2)
      (choose qualifier name first last) (choose qualifier' name' first' last') := by
  have hends : SameResult (fun p p' => SamePart tree other p.1 p'.1 ∧ SamePart tree other p.2 p'.2)
      (choose none none first last) (choose none none first' last') := by
    cases hf with
    | none => exact .error _
    | some hf =>
      cases hl with
      | none => exact .error _
      | some hl => exact .ok ⟨hf, hl⟩
  cases hq with
  | none => exact hends
  | some hq =>
    cases hn with
    | none => exact hends
    | some hn => exact .ok ⟨hq, hn⟩

variable {parts parts' : List NamePart} (h : List.Forall₂ (SamePart tree other) parts parts')

include h

theorem at?_alike (label : Label) :
    Option.Rel (SamePart tree other) (at? label parts) (at? label parts') :=
  forall₂_find? h fun _ _ hp => by rw [hp.node.here.label]

theorem qualifierAndName_alike : SameResult
    (fun p p' => SamePart tree other p.1 p'.1 ∧ SamePart tree other p.2 p'.2)
    (qualifierAndName parts) (qualifierAndName parts') := by
  have hnames : List.Forall₂ (SamePart tree other)
      (parts.filter fun part => part.node.named && part.node.kind.isName)
      (parts'.filter fun part => part.node.named && part.node.kind.isName) :=
    forall₂_filter h fun _ _ hp => by rw [hp.node.here.named, hp.node.here.kind]
  rw [qualifierAndName_eq, qualifierAndName_eq]
  exact choose_alike (at?_alike h _) (at?_alike h _) (forall₂_head? hnames)
    (forall₂_getLast? hnames)

theorem aliasAndName_alike : SameResult
    (fun p p' => SamePart tree other p.1 p'.1 ∧ SamePart tree other p.2 p'.2)
    (aliasAndName parts) (aliasAndName parts') := by
  rw [aliasAndName_eq, aliasAndName_eq]
  exact choose_alike (at?_alike h _) (at?_alike h _) (forall₂_head? h) (forall₂_getLast? h)

end

/-- The alias of a name is the part that is read as such. -/
theorem aliasAndName_node (tree : SourceTree) (node : Node) {first last : NamePart}
    (h : aliasAndName (tree.nameParts node.children) = .ok (first, last)) :
    node.aliasPart? = some first.node := by
  have hlabel : ∀ label, node.childAt? label =
      (at? label (tree.nameParts node.children)).map NamePart.node := by
    intro label
    rw [Node.childAt?, ← SourceTree.nameParts_node tree node.children, List.find?_map,
      SourceTree.nameParts_node]
    rfl
  have hhead : node.children.head? = (tree.nameParts node.children).head?.map NamePart.node := by
    rw [← List.head?_map, SourceTree.nameParts_node]
  rw [aliasAndName_eq] at h
  rw [Node.aliasPart?, hlabel, hlabel, hhead, Option.isSome_map, Option.isSome_map, ← apply_ite,
    choose_first h]
  rfl

end NamePart

section

variable {tree other : SourceTree}

theorem argumentCount_alike {children children' : List Node}
    (h : List.Forall₂ (ReadsAlike tree other) children children') :
    argumentCount children' = argumentCount children := by
  have hlist : Option.Rel (ReadsAlike tree other)
      (children.find? fun child => child.kind = .typeArgumentList)
      (children'.find? fun child => child.kind = .typeArgumentList) :=
    forall₂_find? h fun _ _ hc => by rw [hc.here.kind]
  rw [argumentCount, argumentCount]
  generalize (children.find? fun child => child.kind = .typeArgumentList) = l at hlist ⊢
  generalize (children'.find? fun child => child.kind = .typeArgumentList) = l' at hlist ⊢
  cases hlist with
  | none => rfl
  | some hl => exact hl.namedChildren.length_eq.symm

mutual

theorem nameOf_alike : ∀ node node' : Node, ReadsAlike tree other node node' →
    other.nameOf node' = tree.nameOf node
  | .mk kind named missing start stop label children,
    .mk kind' named' missing' start' stop' label' children' => by
    intro h
    obtain rfl : kind' = kind := h.here.kind
    cases kind' with
    | name shape =>
      have hparts := nameParts_alike children children' h.children
      cases shape with
      | identifier =>
        rw [SourceTree.nameOf, SourceTree.nameOf, h.text (.inl rfl)]
      | generic =>
        have hname : other.textOf? (children'.find? fun child => child.kind = .name .identifier) =
            tree.textOf? (children.find? fun child => child.kind = .name .identifier) :=
          ReadsAlike.textOf?_identifier (h.firstChild? (.name .identifier)) fun name hn => by
            simpa using List.find?_some hn
        have hcount : argumentCount children' = argumentCount children :=
          argumentCount_alike h.children
        rw [SourceTree.nameOf, SourceTree.nameOf, hname, hcount]
      | qualified =>
        have hpair := NamePart.qualifierAndName_alike hparts
        rw [SourceTree.nameOf, SourceTree.nameOf]
        generalize NamePart.qualifierAndName (tree.nameParts children) = x at hpair ⊢
        generalize NamePart.qualifierAndName (other.nameParts children') = y at hpair ⊢
        cases hpair with
        | error => rfl
        | ok hp => simp only [except_ok_bind, hp.1.name, hp.2.name]
      | aliasQualified =>
        have hpair := NamePart.aliasAndName_alike hparts
        rw [SourceTree.nameOf, SourceTree.nameOf]
        generalize hx : NamePart.aliasAndName (tree.nameParts children) = x at hpair ⊢
        generalize hy : NamePart.aliasAndName (other.nameParts children') = y at hpair ⊢
        cases hpair with
        | error => rfl
        | ok hp =>
          have halias := NamePart.aliasAndName_node tree
            (.mk (.name .aliasQualified) named missing start stop label children) hx
          have halias' := NamePart.aliasAndName_node other
            (.mk (.name .aliasQualified) named' missing' start' stop' label' children') hy
          have htexts := h.here.texts
          rw [Node.textNodes, Node.textNodes] at htexts
          dsimp only [Node.kind] at htexts
          rw [halias, halias'] at htexts
          have htext := text_eq_of_letters (List.head_eq_of_cons_eq htexts)
          simp only [except_ok_bind, hp.2.name, htext]
    | _ =>
      simp only [SourceTree.nameOf]

theorem nameParts_alike : ∀ nodes nodes' : List Node,
    List.Forall₂ (ReadsAlike tree other) nodes nodes' →
    List.Forall₂ (SamePart tree other) (tree.nameParts nodes) (other.nameParts nodes')
  | [], _ => by
    intro h
    cases h
    rw [SourceTree.nameParts, SourceTree.nameParts]
    exact .nil
  | node :: rest, _ => by
    intro h
    obtain ⟨node', rest', hnode, hrest, rfl⟩ := List.forall₂_cons_left_iff.mp h
    rw [SourceTree.nameParts, SourceTree.nameParts]
    exact .cons ⟨hnode, nameOf_alike node node' hnode⟩ (nameParts_alike rest rest' hrest)

end

end

end Syntax

/-! ## Declarations -/

namespace Symbols

section

variable {tree other : SourceTree}

/-- Two names that read alike and whose own texts can be read or not alike. -/
structure SameImport (tree other : SourceTree) (name name' : Node) : Prop where
  alike : ReadsAlike tree other name name'
  readable : (other.letters? name').isSome = (tree.letters? name).isSome

theorem SameImport.target {name name' : Node} (h : SameImport tree other name name') :
    SameTarget tree other name name' := by
  refine ⟨nameOf_alike name name' h.alike, ?_⟩
  have hreadable := h.readable
  rw [SourceTree.letters?, SourceTree.letters?, SourceTree.text, SourceTree.text] at hreadable
  rw [SourceTree.text, SourceTree.text]
  cases hs : Text.slice? tree.content name.start name.stop with
  | none =>
    rw [hs] at hreadable
    cases hs' : Text.slice? other.content name'.start name'.stop with
    | none => exact .error _
    | some cs => rw [hs'] at hreadable; cases hreadable
  | some cs =>
    rw [hs] at hreadable
    cases hs' : Text.slice? other.content name'.start name'.stop with
    | none => rw [hs'] at hreadable; cases hreadable
    | some cs' => exact .ok trivial

theorem usingNames_cons (child : Node) (rest : List Node) :
    usingNames (child :: rest) = usingNames [child] ++ usingNames rest := by
  rw [← List.singleton_append, usingNames, List.filter_append, List.map_append, List.filter_append]
  rfl

theorem usingNames_alike {children children' : List Node}
    (h : List.Forall₂ (ReadsAlike tree other) children children') :
    List.Forall₂ (ReadsAlike tree other) (usingNames children) (usingNames children') := by
  rw [usingNames, usingNames]
  refine forall₂_filter ?_ fun _ _ hc => by rw [hc.here.kind]
  refine List.rel_map (fun child child' hc => ?_) (forall₂_filter h fun _ _ hc => hc.here.named)
  rw [hc.here.kind]
  split
  · exact optionRel_getD (forall₂_head? hc.namedChildren) hc
  · exact hc

/-- Two children of using directives whose names can be read or not alike. -/
def SameChild (tree other : SourceTree) (child child' : Node) : Prop :=
  ReadsAlike tree other child child' ∧
    ((usingNames [child']).map fun n => (other.letters? n).isSome) =
      (usingNames [child]).map fun n => (tree.letters? n).isSome

theorem usingNames_imports {children children' : List Node}
    (h : List.Forall₂ (SameChild tree other) children children') :
    List.Forall₂ (SameImport tree other) (usingNames children) (usingNames children') := by
  induction h with
  | nil => exact .nil
  | @cons child child' rest rest' hc _ ih =>
    rw [usingNames_cons, usingNames_cons child']
    refine List.rel_append ?_ ih
    exact (forall₂_and_map (usingNames_alike (.cons hc.1 .nil)) hc.2).imp
      fun _ _ hn => ⟨hn.1, hn.2⟩

variable {node node' : Node} (h : ReadsAlike tree other node node')

include h

theorem SameChild.of_directive (hk : node.kind = .usingDirective) :
    List.Forall₂ (SameChild tree other) node.children node'.children := by
  have htargets := h.here.targets
  rw [Node.targetNodes, Node.targetNodes, h.here.kind, if_pos hk, if_pos hk, List.map_map,
    List.map_map] at htargets
  exact forall₂_and_map h.children htargets

theorem namesWithoutAlias_alike (hk : node.kind = .usingDirective) {names names' : List Node}
    (hn : List.Forall₂ (SameImport tree other) names names') :
    List.Forall₂ (SameImport tree other) (namesWithoutAlias node names)
      (namesWithoutAlias node' names') := by
  have hlabel := h.childAt? .name
  have hrest : List.Forall₂ (SameImport tree other)
      (usingNames (node.children.eraseP fun child => child.label = some .name))
      (usingNames (node'.children.eraseP fun child => child.label = some .name)) :=
    usingNames_imports (forall₂_eraseP (SameChild.of_directive h hk) fun _ _ hc => by
      rw [hc.1.here.label])
  rw [namesWithoutAlias, namesWithoutAlias]
  generalize node.childAt? .name = a at hlabel ⊢
  generalize node'.childAt? .name = a' at hlabel ⊢
  cases hlabel with
  | none =>
    cases hn with
    | nil => exact .nil
    | cons _ hn => exact hn
  | some ha =>
    dsimp only
    rw [ha.here.kind]
    split
    · exact hn
    · exact hrest

theorem usingAlias_alike (hk : node.kind = .usingDirective) : SameResult
    (fun a a' => a'.1 = a.1 ∧ List.Forall₂ (SameImport tree other) a.2 a'.2)
    (usingAlias tree node (usingNames node.children))
    (usingAlias other node' (usingNames node'.children)) := by
  have hnames := usingNames_imports (SameChild.of_directive h hk)
  have hequals := h.firstChild? .nameEquals
  have htexts := h.here.texts
  rw [Node.textNodes, Node.textNodes, h.here.kind, hk, Node.directiveAlias?, Node.directiveAlias?]
    at htexts
  rw [usingAlias, usingAlias, h.hasChild]
  rw [h.hasChild] at htexts
  generalize node.firstChild? .nameEquals = e at hequals htexts ⊢
  generalize node'.firstChild? .nameEquals = e' at hequals htexts ⊢
  cases hequals with
  | some he =>
    exact (SameResult.of_eq he.declaredName).bind fun _ _ hname => .ok ⟨by rw [hname], hnames⟩
  | none =>
    cases hequals : node.hasChild .equalsToken with
    | false => exact .ok ⟨rfl, hnames⟩
    | true =>
      rw [hequals] at htexts
      refine (SameResult.of_eq (textOf_eq_of_letters htexts)).bind fun _ _ hname => ?_
      have hremaining := namesWithoutAlias_alike h hk hnames
      refine .ok ⟨by rw [hname], ?_⟩
      dsimp only
      rw [forall₂_isEmpty hremaining]
      split
      · exact hnames
      · exact hremaining

theorem directiveOf_alike (hk : node.kind = .usingDirective) : SameResult
    (Option.Rel fun d d' => d'.1 = d.1 ∧ SameTarget tree other d.2 d'.2)
    (directiveOf tree node) (directiveOf other node') := by
  rw [directiveOf, directiveOf, forall₂_isEmpty (usingNames_alike h.children)]
  split
  · exact .ok .none
  · refine (usingAlias_alike h hk).bind fun a a' ha => .ok ?_
    have hlast := forall₂_getLast? ha.2
    generalize a.2.getLast? = t at hlast ⊢
    generalize a'.2.getLast? = t' at hlast ⊢
    cases hlast with
    | none => exact .none
    | some ht => exact .some ⟨ha.1, ht.target⟩

theorem segmentsOf_alike : segmentsOf other node' = segmentsOf tree node := by
  have hname : Option.Rel (ReadsAlike tree other) (namespaceName? node) (namespaceName? node') :=
    optionRel_or (h.childAt? .name) (forall₂_find? h.children fun _ _ hc => by rw [hc.here.kind])
  rw [segmentsOf, segmentsOf]
  generalize namespaceName? node = n at hname ⊢
  generalize namespaceName? node' = n' at hname ⊢
  cases hname with
  | none => rfl
  | some hn =>
    dsimp only
    rw [nameOf_alike _ _ hn]

/-- **Nodes that read alike declare the same.** -/
theorem SameDeclaration.of_alike {p : Pairing}
    (hkey : node.kind.isTypeDeclaration = true ∨ node.kind = .fieldDeclaration →
      p.keys (tree.key node) (other.key node')) : SameDeclaration p tree other node node' where
  kind := h.here.kind
  typeKind? := h.typeKind?
  key := hkey
  declaredName := h.declaredName
  typeParameters := h.typeParameters
  modifiers := h.modifiers
  isAutoProperty := h.isAutoProperty
  parameterCount := h.parameterCount
  returnType := h.returnType
  baseName? := optionRel_mono h.baseName? fun _ _ hn => nameOf_alike _ _ hn
  attributeNames := h.attributeNames.imp fun _ _ hn => nameOf_alike _ _ hn
  declarators := h.declarators.imp fun _ _ hd => hd.declaredName
  directive := directiveOf_alike h
  hasChild := h.hasChild
  segments := segmentsOf_alike h

end

/-! ## Whole trees -/

section

variable {tree other : SourceTree}

mutual

theorem preorder_alike : ∀ node node' : Node, ReadsAlike tree other node node' →
    List.Forall₂ (ReadsAlike tree other) node.preorder node'.preorder
  | .mk kind named missing start stop label children, node' => by
    intro h
    rw [Node.preorder_eq, Node.preorder_eq node']
    exact .cons h (preorders_alike children node'.children h.children)

theorem preorders_alike : ∀ nodes nodes' : List Node,
    List.Forall₂ (ReadsAlike tree other) nodes nodes' →
    List.Forall₂ (ReadsAlike tree other) (Node.preorders nodes) (Node.preorders nodes')
  | [], _ => by
    intro h
    cases h
    exact .nil
  | node :: rest, _ => by
    intro h
    obtain ⟨node', rest', hnode, hrest, rfl⟩ := List.forall₂_cons_left_iff.mp h
    rw [Node.preorders, Node.preorders]
    exact List.rel_append (preorder_alike node node' hnode) (preorders_alike rest rest' hrest)

end

/-- If a node has a key, it is paired with that of its counterpart. -/
def KeyPaired (p : Pairing) (tree other : SourceTree) (node node' : Node) : Prop :=
  node.kind.isKeyed = true → p.keys (tree.key node) (other.key node')

variable {p : Pairing}

mutual

theorem NodeTwin.of_alike : ∀ node node' : Node, ReadsAlike tree other node node' →
    List.Forall₂ (KeyPaired p tree other) node.preorder node'.preorder →
    NodeTwin p tree other node node'
  | .mk kind named missing start stop label children, node' => by
    intro h hkeys
    rw [Node.preorder_eq, Node.preorder_eq node'] at hkeys
    obtain ⟨hkey, hbelow⟩ := List.forall₂_cons.mp hkeys
    refine ⟨.of_alike h fun hk => hkey ?_,
      NodeTwin.all_of_alike children node'.children h.children hbelow⟩
    rcases hk with hk | hk <;> simp [Kind.isKeyed, hk]

theorem NodeTwin.all_of_alike : ∀ nodes nodes' : List Node,
    List.Forall₂ (ReadsAlike tree other) nodes nodes' →
    List.Forall₂ (KeyPaired p tree other) (Node.preorders nodes) (Node.preorders nodes') →
    List.Forall₂ (NodeTwin p tree other) nodes nodes'
  | [], _ => by
    intro h _
    cases h
    exact .nil
  | node :: rest, _ => by
    intro h hkeys
    obtain ⟨node', rest', hnode, hrest, rfl⟩ := List.forall₂_cons_left_iff.mp h
    rw [Node.preorders, Node.preorders] at hkeys
    obtain ⟨hfirst, hothers⟩ :=
      forall₂_append_left (preorder_alike node node' hnode).length_eq hkeys
    exact .cons (NodeTwin.of_alike node node' hnode hfirst)
      (NodeTwin.all_of_alike rest rest' hrest hothers)

end

end

end Symbols

end PrintGen
