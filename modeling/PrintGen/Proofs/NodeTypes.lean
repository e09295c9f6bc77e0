import PrintGen.Proofs.Resolution

/-!
# Which type a declaration node stands for

The pass records the type of every declaration node that it visits, under the key of the node. As
long as these keys are distinct, a record is never overwritten, so that the last table still tells
which type each visited node declares, and knows nothing of the others.
-/

namespace PrintGen.Symbols

open Syntax

theorem find?_putNodeType (key other : NodeKey) (t : TypePath) (known : List (NodeKey × TypePath)) :
    ((Table.putNodeType key t known).find? fun entry => entry.1 = other).map Prod.snd =
      if other = key then some t
      else (known.find? fun entry => entry.1 = other).map Prod.snd := by
  induction known with
  | nil =>
    by_cases h : other = key
    · simp [Table.putNodeType, h]
    · have hne : ¬ key = other := fun he => h he.symm
      simp [Table.putNodeType, h, hne]
  | cons entry rest ih =>
    obtain ⟨k, u⟩ := entry
    rw [Table.putNodeType]
    by_cases hk : k = key
    · rw [if_pos hk]
      by_cases h : other = key
      · simp [h, hk]
      · have hne : ¬ k = other := fun he => h (he ▸ hk)
        simp [h, hne]
    · rw [if_neg hk]
      by_cases ho : k = other
      · have hne : ¬ other = key := fun he => hk (ho.trans he)
        simp [ho, hne]
      · rw [List.find?_cons_of_neg (by simpa using ho), ih,
          List.find?_cons_of_neg (by simpa using ho)]

theorem Table.withType_typeOfNode? (table : Table) (tree : SourceTree) (node : Node)
    (type : TypeKind) (scope : Scope) (t : TypePath) (parameters : List String) (key : NodeKey) :
    (table.withType tree node type scope t parameters).typeOfNode? key =
      if key = tree.key node then some t else table.typeOfNode? key := by
  rw [typeOfNode?, withType_eq]
  exact find?_putNodeType _ _ _ _

theorem Table.typeOfNode?_of_nodeTypes {table last : Table} (h : last.nodeTypes = table.nodeTypes)
    (key : NodeKey) : last.typeOfNode? key = table.typeOfNode? key := by
  rw [typeOfNode?, h]
  rfl

/-- The keys of the type declarations at or below some nodes. -/
def declarationKeys (tree : SourceTree) (nodes : List Node) : List NodeKey :=
  ((Node.preorders nodes).filter fun node => node.kind.isTypeDeclaration).map tree.key

theorem declarationKeys_append (tree : SourceTree) (nodes more : List Node) :
    declarationKeys tree (nodes ++ more) =
      declarationKeys tree nodes ++ declarationKeys tree more := by
  rw [declarationKeys, Node.preorders_append, List.filter_append, List.map_append]
  rfl

theorem declarationKeys_cons (tree : SourceTree) (node : Node) (rest : List Node) :
    declarationKeys tree (node :: rest) =
      declarationKeys tree [node] ++ declarationKeys tree rest :=
  declarationKeys_append tree [node] rest

/-- What lies deeper has fewer keys. -/
theorem declarationKeys_sublist (tree : SourceTree) {nodes more : List Node}
    (h : (Node.preorders nodes).Sublist (Node.preorders more)) :
    (declarationKeys tree nodes).Sublist (declarationKeys tree more) :=
  (h.filter _).map _

theorem preorders_children (node : Node) :
    (Node.preorders node.children).Sublist (Node.preorders [node]) := by
  rw [Node.preorders, Node.preorders, List.append_nil, Node.preorder_eq]
  exact List.sublist_cons_self _ _

theorem preorders_members (node : Node) :
    (Node.preorders (members node)).Sublist (Node.preorders node.children) := by
  rw [members]
  cases hb : node.body? with
  | none => exact List.nil_sublist _
  | some body =>
    have hmem : body ∈ node.children := List.mem_of_find?_eq_some hb
    refine (preorders_children body).trans ?_
    rw [Node.preorders, Node.preorders, List.append_nil]
    exact Node.preorder_sublist hmem

theorem preorders_openMembers (table : Table) (t : TypePath) (node : Node) :
    (Node.preorders (openMembers table t node)).Sublist (Node.preorders node.children) := by
  rw [openMembers]
  split
  · exact List.nil_sublist _
  · exact preorders_members node

theorem mem_declarationKeys (tree : SourceTree) {node : Node} {nodes : List Node}
    (h : node ∈ Node.preorders nodes) (hk : node.kind.isTypeDeclaration = true) :
    tree.key node ∈ declarationKeys tree nodes :=
  List.mem_map_of_mem (List.mem_filter.mpr ⟨h, hk⟩)

/-- **Only keys of declarations among the nodes are touched.** -/
theorem Declares.typeOfNode? {tree : SourceTree} {scope : Scope} {within : Option TypePath}
    {nodes : List Node} {table last : Table} (h : Declares tree scope within nodes table last)
    {key : NodeKey} (hkey : key ∉ declarationKeys tree nodes) :
    last.typeOfNode? key = table.typeOfNode? key := by
  induction h with
  | nil => rfl
  | directive hk hd hr ih =>
    rw [declarationKeys_cons, List.mem_append, not_or] at hkey
    rw [ih hkey.2]
    exact Table.typeOfNode?_of_nodeTypes (by simp) key
  | @block scope within node rest table mid last segments hk hn hb hr ihb ihr =>
    rw [declarationKeys_cons, List.mem_append, not_or] at hkey
    have hin := declarationKeys_sublist tree
      ((preorders_members node).trans (preorders_children node))
    rw [ihr hkey.2, ihb fun hmem => hkey.1 (hin.subset hmem)]
    exact Table.typeOfNode?_of_nodeTypes (by simp) key
  | @file scope within node rest table mid last segments hk hn hb hr ihb ihr =>
    rw [declarationKeys_cons, List.mem_append, not_or] at hkey
    have hin := declarationKeys_sublist tree (preorders_children node)
    rw [ihr hkey.2, ihb fun hmem => hkey.1 (hin.subset hmem)]
    exact Table.typeOfNode?_of_nodeTypes (by simp) key
  | storage hk hf hr ih =>
    rw [declarationKeys_cons, List.mem_append, not_or] at hkey
    rw [ih hkey.2]
    rfl
  | @type scope within node rest table mid last kind t parameters hk ht hb hr ihb ihr =>
    rw [declarationKeys_cons, List.mem_append, not_or] at hkey
    have hin := declarationKeys_sublist tree
      ((preorders_openMembers (table.withType tree node kind scope t parameters) t node).trans
        (preorders_children node))
    have hown : tree.key node ∈ declarationKeys tree [node] := by
      refine mem_declarationKeys tree ?_ (by rw [hk]; rfl)
      rw [Node.preorders, Node.preorder_eq]
      exact List.mem_cons_self
    have hne : ¬ key = tree.key node := fun he => hkey.1 (he ▸ hown)
    rw [ihr hkey.2, ihb fun hmem => hkey.1 (hin.subset hmem), Table.withType_typeOfNode?,
      if_neg hne]
  | @wrapper scope within node rest table mid last w hk hb hr ihb ihr =>
    rw [declarationKeys_cons, List.mem_append, not_or] at hkey
    have hin := declarationKeys_sublist tree (preorders_children node)
    rw [ihr hkey.2, ihb fun hmem => hkey.1 (hin.subset hmem)]
  | skip hk hs hr ih =>
    rw [declarationKeys_cons, List.mem_append, not_or] at hkey
    exact ih hkey.2

theorem DeclaresTree.typeOfNode? {tree : SourceTree} {table last : Table}
    (h : DeclaresTree tree table last) {key : NodeKey}
    (hkey : key ∉ declarationKeys tree tree.root.children) :
    last.typeOfNode? key = table.typeOfNode? key := by
  rw [Declares.typeOfNode? h hkey]
  rfl

theorem tree_of_mem_declarationKeys {tree : SourceTree} {nodes : List Node} {key : NodeKey}
    (h : key ∈ declarationKeys tree nodes) : key.tree = tree.id := by
  obtain ⟨node, _, rfl⟩ := List.mem_map.mp h
  rfl

/-- Trees do not touch the keys of other trees. -/
theorem DeclaresTrees.typeOfNode? {trees : List SourceTree} {table last : Table}
    (h : DeclaresTrees trees table last) {key : NodeKey}
    (hkey : ∀ tree ∈ trees, tree.id ≠ key.tree) :
    last.typeOfNode? key = table.typeOfNode? key := by
  induction h with
  | nil => rfl
  | @cons tree rest table mid last ht hr ih =>
    have hfar : key ∉ declarationKeys tree tree.root.children := fun hmem =>
      hkey tree (by simp) (tree_of_mem_declarationKeys hmem).symm
    rw [ih fun t hmem => hkey t (by simp [hmem]), ht.typeOfNode? hfar]

/-- Every type that a node is known to declare exists. -/
def NodesDeclared (table : Table) : Prop :=
  ∀ key t, table.typeOfNode? key = some t → table.hasType t = true

theorem NodesDeclared.of_grows {table last : Table} (h : NodesDeclared table)
    (hg : Grows table last) (hn : last.nodeTypes = table.nodeTypes) : NodesDeclared last := by
  intro key t hk
  rw [Table.typeOfNode?_of_nodeTypes hn] at hk
  exact hg.hasType (h key t hk)

theorem NodesDeclared.withType {table : Table} (h : NodesDeclared table) (tree : SourceTree)
    (node : Node) (kind : TypeKind) (scope : Scope) (t : TypePath) (parameters : List String) :
    NodesDeclared (table.withType tree node kind scope t parameters) := by
  intro key u hk
  rw [Table.withType_typeOfNode?] at hk
  split at hk
  · cases hk
    exact Table.withType_hasType _ _ _ _ _ _ _
  · exact (Grows.withType _ _ _ _ _ _ _).hasType (h key u hk)

theorem Declares.nodesDeclared {tree : SourceTree} {scope : Scope} {within : Option TypePath}
    {nodes : List Node} {table last : Table} (h : Declares tree scope within nodes table last)
    (hn : NodesDeclared table) : NodesDeclared last := by
  induction h with
  | nil => exact hn
  | directive hk hd hr ih => exact ih (hn.of_grows (Grows.withDirective _ _ _ _ _) (by simp))
  | block hk hs hb hr ihb ihr
  | file hk hs hb hr ihb ihr => exact ihr (ihb (hn.of_grows (Grows.withScope _ _ _ _) (by simp)))
  | storage hk hf hr ih => exact ih (hn.of_grows (Grows.withFields _ _) rfl)
  | type hk ht hb hr ihb ihr => exact ihr (ihb (hn.withType _ _ _ _ _ _))
  | wrapper hk hb hr ihb ihr => exact ihr (ihb hn)
  | skip hk hs hr ih => exact ih hn

theorem DeclaresTrees.nodesDeclared {trees : List SourceTree} {table last : Table}
    (h : DeclaresTrees trees table last) (hn : NodesDeclared table) : NodesDeclared last := by
  induction h with
  | nil => exact hn
  | cons ht hr ih =>
    exact ih (Declares.nodesDeclared ht (hn.of_grows (Grows.withFrame _ _ _ _) rfl))

theorem nodesDeclared_empty : NodesDeclared .empty := by
  intro key t hk
  cases hk

end PrintGen.Symbols
