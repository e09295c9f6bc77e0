import PrintGen.Proofs.Outlines

/-!
# Wrapped members

Conditional compilation and syntax errors put nodes around members. A wrapper declares nothing
itself, and what is inside it belongs to the scope around it. `Wraps` says that one list of siblings
comes from another by wrapping runs of members, in any number of places, and by adding nodes that
declare nothing. The declaration pass makes the same table of both: runs are entered one after the
other whether they are wrapped or not.

A file-scoped namespace is an exception, as it changes the scope of the nodes after it. Inside a
wrapper it does so only up to the end of the wrapper.
-/

namespace PrintGen

namespace Syntax

/-- Whether a node of this kind declares something. -/
def Kind.declares : Kind → Bool
  | .usingDirective | .namespaceDeclaration | .fileScopedNamespace | .typeDeclaration _ => true
  | .fieldDeclaration | .propertyDeclaration | .eventFieldDeclaration => true
  | .methodDeclaration => true
  | _ => false

/-- Nothing is declared in or below a node. -/
def Node.Silent (node : Node) : Prop :=
  ∀ inner ∈ node.preorder, inner.kind.declares = false

instance (node : Node) : Decidable node.Silent :=
  inferInstanceAs (Decidable (∀ inner ∈ node.preorder, inner.kind.declares = false))

theorem Node.Silent.child {node child : Node} (h : node.Silent) (hc : child ∈ node.children) :
    child.Silent :=
  fun inner hi => h inner ((Node.preorder_child hc).subset hi)

end Syntax

namespace Symbols

open Syntax

/-- The second list of siblings is the first one with some runs of members wrapped. A run has no
file-scoped namespace among its nodes. Silent nodes may be added among members, and a file-scoped
namespace with members of its own keeps its name. -/
inductive Wraps : Position → List Node → List Node → Prop
  | nil {p} : Wraps p [] []
  | node {p kind named missing start stop label children children' rest rest'}
      (hname : kind = .fileScopedNamespace →
        namespaceName? (.mk kind named missing start stop label children') =
          namespaceName? (.mk kind named missing start stop label children))
      (hbelow : Wraps (p.below kind) children children') (hrest : Wraps p rest rest') :
      Wraps p (.mk kind named missing start stop label children :: rest)
        (.mk kind named missing start stop label children' :: rest')
  | wrap {w named missing start stop label run inner rest rest'}
      (hrun : ∀ node ∈ run, node.kind ≠ .fileScopedNamespace)
      (hinner : Wraps .members run inner) (hrest : Wraps .members rest rest') :
      Wraps .members (run ++ rest)
        (.mk (.wrapper w) named missing start stop label inner :: rest')
  | add {node rest rest'} (hsilent : node.Silent) (hrest : Wraps .members rest rest') :
      Wraps .members rest (node :: rest')

/-- The second tree has the text of the first one, and its nodes with some runs of members
wrapped. -/
structure Wrapped (tree other : SourceTree) : Prop where
  source : other.unparsed = tree.unparsed
  nodes : Wraps .root [tree.root] [other.root]

theorem Wraps.refl (p : Position) (nodes : List Node) : Wraps p nodes nodes := by
  cases nodes with
  | nil => exact .nil
  | cons node rest =>
    obtain ⟨kind, named, missing, start, stop, label, children⟩ := node
    exact .node (fun _ => rfl) (Wraps.refl (p.below kind) children) (Wraps.refl p rest)
termination_by sizeOf nodes

theorem Wrapped.refl (tree : SourceTree) : Wrapped tree tree :=
  ⟨rfl, Wraps.refl .root [tree.root]⟩

/-! ## Outlines -/

/-- Wrapping leaves outlines as they are. -/
theorem Wraps.outlines {p : Position} {nodes others : List Node} (h : Wraps p nodes others) :
    Node.outlinesIn p others = Node.outlinesIn p nodes := by
  induction h with
  | nil => rfl
  | node _ _ _ hbelow hrest =>
    rw [Node.outlinesIn, Node.outlinesIn, Node.outlineIn, Node.outlineIn, hbelow, hrest]
  | wrap => rw [Node.outlinesIn_members, Node.outlinesIn_members]
  | add => rw [Node.outlinesIn_members, Node.outlinesIn_members]

/-- The outline of a declaration does not depend on where it stands. -/
theorem Wraps.outline {p : Position} {kind : Kind} {children others : List Node}
    (h : Wraps (p.below kind) children others) (hp : p.below kind = Position.plain.below kind)
    (named missing : Bool) (start stop : Nat) (label : Option Label) :
    (Node.mk kind named missing start stop label others).outline =
      (Node.mk kind named missing start stop label children).outline := by
  rw [Node.outline, Node.outlineIn, Node.outline, Node.outlineIn, ← hp, h.outlines]

/-! ## Runs of members -/

mutual

theorem declareMember_silent (tree : SourceTree) : ∀ node : Node, node.Silent →
    ∀ (scope : Scope) (within : Option TypePath),
      declareMember tree scope within node = pure scope
  | .mk kind named missing start stop label children, h => by
    intro scope within
    have hk : kind.declares = false := h _ (Node.mem_preorder_self _)
    cases kind with
    | usingDirective => cases hk
    | namespaceDeclaration => cases hk
    | fileScopedNamespace => cases hk
    | typeDeclaration type => cases hk
    | fieldDeclaration => cases hk
    | propertyDeclaration => cases hk
    | eventFieldDeclaration => cases hk
    | wrapper w =>
      simp only [declareMember]
      rw [declareMembers_silent tree children (fun child hc => h.child hc), pure_bind]
    | _ => simp only [declareMember]

theorem declareMembers_silent (tree : SourceTree) : ∀ nodes : List Node,
    (∀ node ∈ nodes, node.Silent) → ∀ (scope : Scope) (within : Option TypePath),
      declareMembers tree scope within nodes = pure ()
  | [], _ => by
    intro scope within
    rw [declareMembers]
  | node :: rest, h => by
    intro scope within
    obtain ⟨hnode, hrest⟩ := List.forall_mem_cons.mp h
    rw [declareMembers, declareMember_silent tree node hnode, pure_bind,
      declareMembers_silent tree rest hrest]

end

/-- Only a file-scoped namespace changes the scope of the nodes after it. -/
theorem declareMember_scope (tree : SourceTree) (scope : Scope) (within : Option TypePath)
    {node : Node} (hk : node.kind ≠ .fileScopedNamespace) :
    declareMember tree scope within node =
      (declareMember tree scope within node >>= fun _ => pure scope) := by
  obtain ⟨kind, named, missing, start, stop, label, children⟩ := node
  cases kind with
  | fileScopedNamespace => exact absurd rfl hk
  | typeDeclaration type =>
    simp only [declareMember, bind_assoc]
    refine congrArg _ (funext fun t => congrArg _ (funext fun declared => ?_))
    split <;> simp
  | _ => simp only [declareMember, bind_assoc, pure_bind]

/-- The nodes after a run are declared in the scope of the run. -/
theorem declareMembers_append (tree : SourceTree) (scope : Scope) (within : Option TypePath)
    {run : List Node} (hrun : ∀ node ∈ run, node.kind ≠ .fileScopedNamespace) (rest : List Node) :
    declareMembers tree scope within (run ++ rest) =
      (declareMembers tree scope within run >>= fun _ =>
        declareMembers tree scope within rest) := by
  induction run with
  | nil => rw [List.nil_append, declareMembers.eq_1, pure_bind]
  | cons node run ih =>
    obtain ⟨hnode, hrun⟩ := List.forall_mem_cons.mp hrun
    rw [List.cons_append, declareMembers, declareMembers,
      declareMember_scope tree scope within hnode, bind_assoc, bind_assoc, bind_assoc]
    simp only [pure_bind, ih hrun]

/-! ## The declaration pass -/

/-- Two steps of the declaration pass do the same up to outlines. -/
abbrev Declare.Concurs {α : Type} (x y : Declare α) : Prop :=
  Concur View.outline.table x y

/-- What a step does with a declaration depends on its outline. -/
theorem Declare.Concurs.of_outline {α : Type} (step : SourceTree → Node → Declare α)
    {tree other : SourceTree} {node node' : Node} (ht : other.unparsed = tree.unparsed)
    (hn : node'.outline = node.outline)
    (h : Shows View.outline.table id (step tree node) (step tree.unparsed node.outline))
    (h' : Shows View.outline.table id (step other node') (step other.unparsed node'.outline)) :
    Declare.Concurs (step tree node) (step other node') := by
  rw [ht, hn] at h'
  exact Concur.of_shows h h'

theorem kindOf_concurs (t : TypePath) : Declare.Concurs (kindOf t) (kindOf t) :=
  Concur.of_shows (View.outline.kindOf_shows t) (View.outline.kindOf_shows t)

theorem forM_concurs {f g : TypePath → Declare Unit} (h : ∀ t, Declare.Concurs (f t) (g t))
    (within : Option TypePath) : Declare.Concurs (within.forM f) (within.forM g) := by
  cases within with
  | none => exact Concur.pure ()
  | some t => exact h t

section

variable {tree other : SourceTree} (ht : other.unparsed = tree.unparsed)

include ht

theorem openFrame_concurs (home : Namespace) (isFile : Bool) :
    Declare.Concurs (openFrame tree home isFile) (openFrame other home isFile) := by
  have h := View.outline.openFrame_shows tree home isFile
  have h' := View.outline.openFrame_shows other home isFile
  change Shows _ _ _ (openFrame other.unparsed home isFile) at h'
  rw [ht] at h'
  exact Concur.of_shows h h'

theorem enterNamespace_concurs {node node' : Node}
    (hs : segmentsOf other node' = segmentsOf tree node) (scope : Scope) :
    Declare.Concurs (enterNamespace tree node scope) (enterNamespace other node' scope) := by
  rw [enterNamespace_eq, enterNamespace_eq, hs]
  refine Concur.bind (Concur.of_shows (View.outline.ofExcept_shows _)
    (View.outline.ofExcept_shows _)) fun segments => ?_
  have h := View.outline.enterSegments_shows tree segments scope
  have h' := View.outline.enterSegments_shows other segments scope
  change Shows _ _ _ (enterSegments other.unparsed segments scope) at h'
  rw [ht] at h'
  exact Concur.of_shows h h'

theorem segmentsOf_eq_of_outline {node node' : Node} (hn : node'.outline = node.outline) :
    segmentsOf other node' = segmentsOf tree node := by
  rw [← segmentsOf_outline other, ← segmentsOf_outline tree, ht, hn]

theorem segmentsOf_eq_of_name {node node' : Node}
    (hn : namespaceName? node' = namespaceName? node) :
    segmentsOf other node' = segmentsOf tree node := by
  rw [segmentsOf, hn, segmentsOf]
  cases namespaceName? node with
  | none => rfl
  | some name =>
    have hname : other.nameOf name = tree.nameOf name := by
      rw [← nameOf_outlineIn other .plain, ← nameOf_outlineIn tree .plain, ht]
    simp only [hname]

/-- **A declaration whose members are wrapped is declared like the one it comes from,** if its
members are. -/
theorem declareMember_concurs {p : Position} {kind : Kind} {named missing : Bool}
    {start stop : Nat} {label : Option Label} {children others : List Node}
    (hname : kind = .fileScopedNamespace →
      namespaceName? (.mk kind named missing start stop label others) =
        namespaceName? (.mk kind named missing start stop label children))
    (h : Wraps (p.below kind) children others)
    (hmembers : ∀ scope within, Declare.Concurs (declareMembers tree scope within children)
      (declareMembers other scope within others))
    (hbody : p.below kind ≠ .members → ∀ scope within,
      Declare.Concurs (declareBody tree scope within children)
        (declareBody other scope within others))
    (scope : Scope) (within : Option TypePath) :
    Declare.Concurs
      (declareMember tree scope within (.mk kind named missing start stop label children))
      (declareMember other scope within (.mk kind named missing start stop label others)) := by
  have hparts : Position.parts ≠ .members := by decide
  cases kind with
  | usingDirective =>
    have houtline := h.outline rfl named missing start stop label
    simp only [declareMember]
    refine Concur.bind ?_ fun _ => Concur.pure scope
    exact Declare.Concurs.of_outline (fun tree node => declareUsing tree node scope) ht houtline
      ((reads_outline tree _).declareUsing rfl scope)
      ((reads_outline other _).declareUsing rfl scope)
  | namespaceDeclaration =>
    have houtline := h.outline rfl named missing start stop label
    simp only [declareMember]
    refine Concur.bind (enterNamespace_concurs ht (segmentsOf_eq_of_outline ht houtline) scope)
      fun inner => ?_
    exact Concur.bind (hbody hparts inner none) fun _ => Concur.pure scope
  | fileScopedNamespace =>
    simp only [declareMember]
    refine Concur.bind (enterNamespace_concurs ht (segmentsOf_eq_of_name ht (hname rfl)) scope)
      fun inner => ?_
    exact Concur.bind (hmembers inner none) fun _ => Concur.pure inner
  | fieldDeclaration =>
    have houtline := h.outline rfl named missing start stop label
    simp only [declareMember]
    refine Concur.bind (forM_concurs (fun t => ?_) within) fun _ => Concur.pure scope
    exact Declare.Concurs.of_outline (fun tree node => declareFields tree node scope t) ht houtline
      ((reads_outline tree _).declareFields scope t) ((reads_outline other _).declareFields scope t)
  | propertyDeclaration =>
    have houtline := h.outline rfl named missing start stop label
    simp only [declareMember]
    refine Concur.bind (forM_concurs (fun t => ?_) within) fun _ => Concur.pure scope
    exact Declare.Concurs.of_outline (fun tree node => declareBackingField tree node t) ht houtline
      ((reads_outline tree _).declareBackingField t) ((reads_outline other _).declareBackingField t)
  | eventFieldDeclaration =>
    have houtline := h.outline rfl named missing start stop label
    simp only [declareMember]
    refine Concur.bind (forM_concurs (fun t => ?_) within) fun _ => Concur.pure scope
    exact Declare.Concurs.of_outline (fun tree node => declareEventFields tree node t) ht houtline
      ((reads_outline tree _).declareEventFields t) ((reads_outline other _).declareEventFields t)
  | typeDeclaration type =>
    have houtline := h.outline rfl named missing start stop label
    have hkind := congrArg Node.typeKind? houtline
    rw [Node.outline_typeKind?, Node.outline_typeKind?] at hkind
    simp only [declareMember, hkind]
    refine Concur.bind ?_ fun t => Concur.bind (kindOf_concurs t) fun declared => ?_
    · exact Declare.Concurs.of_outline (fun tree node => declareType tree node _ scope within) ht
        houtline ((reads_outline tree _).declareType _ scope within)
        ((reads_outline other _).declareType _ scope within)
    · split
      · exact Concur.bind (hbody hparts scope (some t)) fun _ => Concur.pure scope
      · exact Concur.pure scope
  | wrapper w =>
    simp only [declareMember]
    exact Concur.bind (hmembers scope within) fun _ => Concur.pure scope
  | _ =>
    simp only [declareMember]
    exact Concur.pure scope

/-- **Wrapped members are declared like the members they come from.** -/
theorem Wraps.declares {p : Position} {nodes others : List Node} (h : Wraps p nodes others) :
    (∀ scope within, Declare.Concurs (declareMembers tree scope within nodes)
      (declareMembers other scope within others)) ∧
    (p ≠ .members → ∀ scope within, Declare.Concurs (declareBody tree scope within nodes)
      (declareBody other scope within others)) := by
  induction h with
  | nil =>
    simp only [declareMembers, declareBody]
    exact ⟨fun _ _ => Concur.pure (), fun _ _ _ => Concur.pure ()⟩
  | node hname hbelow _ ihbelow ihrest =>
    refine ⟨fun scope within => ?_, fun hp scope within => ?_⟩
    · rw [declareMembers, declareMembers]
      exact Concur.bind
        (declareMember_concurs ht hname hbelow ihbelow.1 ihbelow.2 scope within)
        fun inner => ihrest.1 inner within
    · rw [declareBody, declareBody]
      split
      · exact ihbelow.1 scope within
      · exact ihrest.2 hp scope within
  | wrap hrun _ _ ihinner ihrest =>
    refine ⟨fun scope within => ?_, fun hp => absurd rfl hp⟩
    rw [declareMembers_append tree scope within hrun, declareMembers]
    simp only [declareMember, bind_assoc, pure_bind]
    exact Concur.bind (ihinner.1 scope within) fun _ => ihrest.1 scope within
  | add hsilent _ ihrest =>
    refine ⟨fun scope within => ?_, fun hp => absurd rfl hp⟩
    rw [declareMembers.eq_2 other, declareMember_silent other _ hsilent, pure_bind]
    exact ihrest.1 scope within

end

theorem Wrapped.declareTree {tree other : SourceTree} (h : Wrapped tree other) :
    Declare.Concurs (declareTree tree) (declareTree other) := by
  have hchildren : ∃ p, Wraps p tree.root.children other.root.children := by
    have hnodes := h.nodes
    generalize tree.root = root at hnodes ⊢
    generalize other.root = root' at hnodes ⊢
    cases hnodes with
    | node _ hbelow _ => exact ⟨_, hbelow⟩
  obtain ⟨p, hbelow⟩ := hchildren
  rw [Symbols.declareTree, Symbols.declareTree]
  exact Concur.bind (openFrame_concurs h.source _ _) fun frame =>
    (hbelow.declares h.source).1 [frame] none

/-- Compilations are declared alike if their trees are. -/
theorem declareTrees_concurs {trees others : List SourceTree}
    (h : List.Forall₂ (fun tree other => Declare.Concurs (declareTree tree) (declareTree other))
      trees others) : Declare.Concurs (declareTrees trees) (declareTrees others) := by
  induction h with
  | nil => exact Concur.pure ()
  | cons htree _ ih => exact Concur.bind htree fun _ => ih

/-- **The model of a compilation does not depend on wrappers around members,** up to what is wrapped
below the nodes that it keeps, and neither does the fault that stops the work. -/
theorem build_wrapped {trees others : List SourceTree} (h : List.Forall₂ Wrapped trees others) :
    View.outline.model (build others).model = View.outline.model (build trees).model ∧
      (build others).fault = (build trees).fault :=
  build_concur readsName_outline (declareTrees_concurs (h.imp fun _ _ hw => hw.declareTree))

end Symbols

end PrintGen
