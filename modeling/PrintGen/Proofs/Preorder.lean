import PrintGen.Syntax.Tree
import Mathlib.Data.List.Basic

/-!
# Places in a tree

The nodes of a tree in source order, by recursion on the tree, and the same list with everything
around each node. The worklist visits exactly these, in this order, and what it hands down as the
owner of a node is the nearest type declaration around it.
-/

namespace PrintGen.Syntax

/-- A node with the nodes around it, the nearest first. Each of these comes with the position of
the child that leads on to the node. -/
structure Place where
  node : Node
  around : List (Node × Nat)

namespace Node

mutual

/-- The nodes of a tree in source order, each before its children. -/
def preorder : Node → List Node
  | node@(.mk _ _ _ _ _ _ children) => node :: preorders children

/-- The nodes of several trees, one tree after the other. -/
def preorders : List Node → List Node
  | [] => []
  | node :: rest => preorder node ++ preorders rest

end

mutual

/-- The places in a tree that itself stands inside of the given nodes. -/
def placesIn (around : List (Node × Nat)) : Node → List Place
  | node@(.mk _ _ _ _ _ _ children) => ⟨node, around⟩ :: placesAmong node around 0 children

/-- The places in the children of a node, counted from the given position. -/
def placesAmong (parent : Node) (around : List (Node × Nat)) : Nat → List Node → List Place
  | _, [] => []
  | i, node :: rest =>
    placesIn ((parent, i) :: around) node ++ placesAmong parent around (i + 1) rest

end

theorem preorder_eq (node : Node) : node.preorder = node :: preorders node.children := by
  cases node
  rfl

theorem placesIn_eq (around : List (Node × Nat)) (node : Node) :
    node.placesIn around = ⟨node, around⟩ :: placesAmong node around 0 node.children := by
  cases node
  rfl

theorem size_eq (node : Node) : node.size = sizes node.children + 1 := by
  cases node
  rfl

theorem size_le_sizes {node : Node} {nodes : List Node} (h : node ∈ nodes) :
    node.size ≤ sizes nodes := by
  induction nodes with
  | nil => cases h
  | cons first rest ih =>
    rw [sizes]
    rcases List.mem_cons.mp h with rfl | hr
    · omega
    · have hrest := ih hr
      omega

theorem size_lt_of_mem {child node : Node} (h : child ∈ node.children) :
    child.size < node.size := by
  have hle := size_le_sizes h
  rw [size_eq node]
  omega

/-- What holds of a node whenever it holds of its children holds of every node. -/
@[elab_as_elim]
theorem children_induction {motive : Node → Prop} (node : Node)
    (step : ∀ node, (∀ child ∈ node.children, motive child) → motive node) : motive node := by
  induction hn : node.size using Nat.strongRecOn generalizing node with
  | ind n ih =>
    subst hn
    exact step node fun child hc => ih child.size (size_lt_of_mem hc) child rfl

theorem sizes_append (nodes more : List Node) :
    sizes (nodes ++ more) = sizes nodes + sizes more := by
  induction nodes with
  | nil => simp [sizes]
  | cons node rest ih => simp only [List.cons_append, sizes, ih]; omega

theorem preorders_append (nodes more : List Node) :
    preorders (nodes ++ more) = preorders nodes ++ preorders more := by
  induction nodes with
  | nil => simp [preorders]
  | cons node rest ih => simp only [List.cons_append, preorders, ih, List.append_assoc]

theorem mem_preorder_self (node : Node) : node ∈ node.preorder := by
  rw [preorder_eq]
  exact List.mem_cons_self

theorem preorder_sublist {node : Node} {nodes : List Node} (h : node ∈ nodes) :
    node.preorder.Sublist (preorders nodes) := by
  induction nodes with
  | nil => cases h
  | cons first rest ih =>
    rw [preorders]
    rcases List.mem_cons.mp h with rfl | hr
    · exact List.sublist_append_left _ _
    · exact (ih hr).trans (List.sublist_append_right _ _)

theorem sublist_preorders (nodes : List Node) : nodes.Sublist (preorders nodes) := by
  induction nodes with
  | nil => exact List.Sublist.refl _
  | cons node rest ih =>
    rw [preorders, preorder_eq, List.cons_append]
    exact (ih.trans (List.sublist_append_right _ _)).cons_cons _

/-- The nodes below a child come after the node itself. -/
theorem preorder_child {child node : Node} (h : child ∈ node.children) :
    child.preorder.Sublist node.preorder := by
  rw [preorder_eq node]
  exact (preorder_sublist h).trans (List.sublist_cons_self _ _)

mutual

/-- What lies below a node of a tree lies in the tree. -/
theorem preorder_trans {inner node : Node} : ∀ {outer : Node}, node ∈ outer.preorder →
    inner ∈ node.preorder → inner ∈ outer.preorder
  | .mk _ _ _ _ _ _ _, hn, hi => by
    rw [preorder] at hn ⊢
    rcases List.mem_cons.mp hn with rfl | hbelow
    · rw [preorder] at hi
      exact hi
    · exact List.mem_cons_of_mem _ (preorders_trans hbelow hi)

theorem preorders_trans {inner node : Node} : ∀ {nodes : List Node}, node ∈ preorders nodes →
    inner ∈ node.preorder → inner ∈ preorders nodes
  | [], hn, _ => by
    rw [preorders] at hn
    cases hn
  | _ :: _, hn, hi => by
    rw [preorders] at hn ⊢
    rcases List.mem_append.mp hn with hfirst | hrest
    · exact List.mem_append_left _ (preorder_trans hfirst hi)
    · exact List.mem_append_right _ (preorders_trans hrest hi)

end

mutual

theorem placesIn_node (around : List (Node × Nat)) :
    ∀ node : Node, (node.placesIn around).map Place.node = node.preorder
  | .mk kind named missing start stop label children => by
    simp only [placesIn, preorder, List.map_cons, placesAmong_node]

theorem placesAmong_node (parent : Node) (around : List (Node × Nat)) :
    ∀ (i : Nat) (nodes : List Node),
      (placesAmong parent around i nodes).map Place.node = preorders nodes
  | _, [] => rfl
  | i, node :: rest => by
    simp only [placesAmong, preorders, List.map_append, placesIn_node, placesAmong_node]

end

end Node

namespace Place

/-- The nearest type declaration around a place. -/
def owner? (p : Place) : Option Node :=
  (p.around.map Prod.fst).find? fun node => node.kind.isTypeDeclaration

/-- A place as the worklist visits it. -/
def occurrence (p : Place) : Occurrence :=
  ⟨p.owner?, p.node⟩

/-- The children of a place, the first of them at the given position. -/
def childrenFrom (p : Place) (i : Nat) (nodes : List Node) : List Place :=
  (nodes.zipIdx i).map fun child => ⟨child.1, (p.node, child.2) :: p.around⟩

theorem childrenFrom_node (p : Place) (i : Nat) (nodes : List Node) :
    (p.childrenFrom i nodes).map Place.node = nodes := by
  simp only [childrenFrom, List.map_map]
  exact List.zipIdx_map_fst i nodes

theorem childrenFrom_occurrence (p : Place) (i : Nat) (nodes : List Node) :
    (p.childrenFrom i nodes).map occurrence =
      nodes.map (Occurrence.mk (if p.node.kind.isTypeDeclaration then some p.node else p.owner?)) := by
  have hown : ∀ j (child : Node), occurrence ⟨child, (p.node, j) :: p.around⟩ =
      ⟨if p.node.kind.isTypeDeclaration then some p.node else p.owner?, child⟩ := by
    intro j child
    simp only [occurrence, owner?, List.map_cons, List.find?_cons]
    cases p.node.kind.isTypeDeclaration <;> rfl
  simp only [childrenFrom, List.map_map]
  conv_rhs => rw [← List.zipIdx_map_fst i nodes, List.map_map]
  exact List.map_congr_left fun child _ => hown child.2 child.1

theorem childrenFrom_placesIn (p : Place) (i : Nat) (nodes : List Node) :
    (p.childrenFrom i nodes).flatMap (fun q => q.node.placesIn q.around) =
      Node.placesAmong p.node p.around i nodes := by
  induction nodes generalizing i with
  | nil => rfl
  | cons node rest ih =>
    simp only [Node.placesAmong, ← ih]
    rfl

end Place

/-- The worklist visits the places below its members in source order, as long as it has fuel for
all of them. -/
theorem Occurrence.visit_places (fuel : Nat) (ps : List Place)
    (hf : Node.sizes (ps.map Place.node) ≤ fuel) :
    Occurrence.visit fuel (ps.map Place.occurrence) =
      (ps.flatMap fun p => p.node.placesIn p.around).map Place.occurrence := by
  induction fuel generalizing ps with
  | zero =>
    cases ps with
    | nil => rfl
    | cons p rest =>
      simp only [List.map_cons, Node.sizes, Node.size_eq] at hf
      omega
  | succ fuel ih =>
    cases ps with
    | nil => rfl
    | cons p rest =>
      -- The children go in front of the rest, so the list stays a list of places.
      have hchildren : p.occurrence.children =
          (p.childrenFrom 0 p.node.children).map Place.occurrence :=
        (p.childrenFrom_occurrence 0 p.node.children).symm
      have hsize : Node.sizes ((p.childrenFrom 0 p.node.children ++ rest).map Place.node) ≤ fuel := by
        rw [List.map_append, Place.childrenFrom_node, Node.sizes_append]
        simp only [List.map_cons, Node.sizes, Node.size_eq p.node] at hf
        omega
      rw [List.map_cons, Occurrence.visit, hchildren, ← List.map_append, ih _ hsize,
        List.flatMap_append, Place.childrenFrom_placesIn, List.flatMap_cons, Node.placesIn_eq]
      rfl

namespace Node

/-- All places in a tree, in source order. -/
def places (root : Node) : List Place :=
  root.placesIn []

/-- Visiting a tree reaches its places, each once and in source order. -/
theorem occurrences_eq_places (root : Node) :
    root.occurrences = root.places.map Place.occurrence := by
  have h := Occurrence.visit_places root.size [⟨root, []⟩] (by simp [sizes])
  rw [List.flatMap_singleton] at h
  exact h

theorem occurrences_node (root : Node) :
    root.occurrences.map Occurrence.node = root.preorder := by
  rw [occurrences_eq_places, ← placesIn_node [] root, places, List.map_map]
  rfl

end Node

end PrintGen.Syntax
