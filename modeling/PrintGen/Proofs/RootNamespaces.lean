import PrintGen.Proofs.SharedView

/-!
# Root namespaces

Every namespace but the global one lies in a root namespace. A tree can only declare into a root
namespace that one of its names mentions, so all symbols of trees that never mention a root lie
outside it.
-/

namespace PrintGen

open Syntax Symbols

/-- The root namespace that a namespace lies in; the global one lies in none. -/
def Symbols.Namespace.root? : Namespace → Option String
  | global => none
  | child parent name => parent.root?.or (some name)

/-- The name at a node has no segment of this name. -/
def Syntax.SourceTree.Omits (name : String) (tree : SourceTree) (node : Node) : Prop :=
  ∀ s ∈ (tree.written node).segments, s.name ≠ name

/-- No identifier of a tree has this text. -/
def Syntax.SourceTree.Avoids (tree : SourceTree) (name : String) : Prop :=
  ∀ node ∈ tree.root.preorder, node.kind = .name .identifier → tree.text node ≠ .ok name

theorem Symbols.Namespace.root?_child {n : Namespace} {name root : String}
    (hn : n.root? ≠ some root) (hne : name ≠ root) : (child n name).root? ≠ some root := by
  intro h
  rcases Option.or_eq_some_iff.mp h with hin | ⟨-, hown⟩
  · exact hn hin
  · exact hne (Option.some.inj hown)

/-! ## Names are made of identifiers -/

theorem Syntax.NamePart.qualifierAndName_mem {parts : List NamePart} {first last : NamePart}
    (h : qualifierAndName parts = .ok (first, last)) : first ∈ parts ∧ last ∈ parts := by
  rw [qualifierAndName] at h
  split at h
  · rename_i hq hn
    cases h
    exact ⟨List.mem_of_find?_eq_some hq, List.mem_of_find?_eq_some hn⟩
  · dsimp only at h
    split at h
    · rename_i hf hl
      cases h
      exact ⟨(List.mem_filter.mp (List.mem_of_head? hf)).1,
        (List.mem_filter.mp (List.mem_of_getLast? hl)).1⟩
    · cases h

theorem Syntax.NamePart.aliasAndName_mem {parts : List NamePart} {first last : NamePart}
    (h : aliasAndName parts = .ok (first, last)) : first ∈ parts ∧ last ∈ parts := by
  rw [aliasAndName] at h
  split at h
  · rename_i ha hn
    cases h
    exact ⟨List.mem_of_find?_eq_some ha, List.mem_of_find?_eq_some hn⟩
  · split at h
    · rename_i hf hl
      cases h
      exact ⟨List.mem_of_head? hf, List.mem_of_getLast? hl⟩
    · cases h

namespace Syntax.SourceTree

/-- The texts of all identifiers in a subtree have a property. -/
def Identifiers (P : String → Prop) (tree : SourceTree) (node : Node) : Prop :=
  ∀ n ∈ node.preorder, n.kind = .name .identifier → ∀ text, tree.text n = .ok text → P text

/-- The texts of identifiers can be compared where they exist. -/
theorem identifiers_iff (P : String → Prop) (tree : SourceTree) (node : Node) :
    tree.Identifiers P node ↔ ∀ n ∈ node.preorder, n.kind = .name .identifier →
      ∀ text ∈ (tree.text n).toOption, P text := by
  have htext : ∀ n text, text ∈ (tree.text n).toOption ↔ tree.text n = .ok text := by
    intro n text
    cases tree.text n <;> simp [Except.toOption]
  simp only [Identifiers, htext]

instance (P : String → Prop) [DecidablePred P] (tree : SourceTree) (node : Node) :
    Decidable (tree.Identifiers P node) :=
  decidable_of_iff _ (identifiers_iff P tree node).symm

section

variable {tree : SourceTree} {P : String → Prop}

theorem Identifiers.of_mem {node inner : Node} (h : tree.Identifiers P node)
    (hi : inner ∈ node.preorder) : tree.Identifiers P inner :=
  fun n hn => h n (Node.preorder_trans hi hn)

theorem Identifiers.child {node child : Node} (h : tree.Identifiers P node)
    (hc : child ∈ node.children) : tree.Identifiers P child :=
  h.of_mem (Node.child_mem_preorder hc)

theorem Identifiers.text {node : Node} (h : tree.Identifiers P node)
    (hk : node.kind = .name .identifier) {text : String} (ht : tree.text node = .ok text) :
    P text :=
  h node (Node.mem_preorder_self node) hk text ht

/-- Every segment of a name is the text of an identifier below its node, or empty. -/
theorem Identifiers.segments {node : Node} (h : tree.Identifiers P node) (hempty : P "")
    {name : QualifiedName} (hname : tree.nameOf node = .ok name) :
    ∀ s ∈ name.segments, P s.name := by
  induction node using Node.children_induction generalizing name with
  | step node ih =>
    have hparts : ∀ part ∈ tree.nameParts node.children, ∀ q, part.name = .ok q →
        ∀ s ∈ q.segments, P s.name := by
      intro part hpart q hq
      obtain ⟨hmem, he⟩ := mem_nameParts hpart
      exact ih _ hmem (h.child hmem) (he ▸ hq)
    obtain ⟨kind, named, missing, start, stop, label, children⟩ := node
    cases kind with
    | name shape =>
      cases shape with
      | identifier =>
        rw [nameOf] at hname
        obtain ⟨text, ht, he⟩ := except_bind_ok.mp hname
        cases he
        rw [List.forall_mem_singleton]
        exact h.text rfl ht
      | generic =>
        rw [nameOf] at hname
        obtain ⟨text, ht, he⟩ := except_bind_ok.mp hname
        cases he
        rw [List.forall_mem_singleton]
        cases hf : children.find? fun child => child.kind = .name .identifier with
        | none =>
          rw [hf] at ht
          exact Except.ok.inj ht ▸ hempty
        | some child =>
          rw [hf] at ht
          exact (h.child (List.mem_of_find?_eq_some hf)).text (by simpa using List.find?_some hf) ht
      | qualified =>
        rw [nameOf] at hname
        obtain ⟨⟨first, last⟩, hp, hname⟩ := except_bind_ok.mp hname
        obtain ⟨head, hhead, hname⟩ := except_bind_ok.mp hname
        obtain ⟨tail, htail, he⟩ := except_bind_ok.mp hname
        cases he
        obtain ⟨hf, hl⟩ := NamePart.qualifierAndName_mem hp
        exact List.forall_mem_append.mpr ⟨hparts first hf head hhead, hparts last hl tail htail⟩
      | aliasQualified =>
        rw [nameOf] at hname
        obtain ⟨⟨first, last⟩, hp, hname⟩ := except_bind_ok.mp hname
        obtain ⟨tail, htail, hname⟩ := except_bind_ok.mp hname
        obtain ⟨text, ht, he⟩ := except_bind_ok.mp hname
        cases he
        exact hparts last (NamePart.aliasAndName_mem hp).2 tail htail
    | _ =>
      cases hname
      simp

/-- So is the name of a declaration. -/
theorem Identifiers.declaredName {node : Node} (h : tree.Identifiers P node) (hempty : P "")
    {name : String} (hname : tree.declaredName node = .ok name) : P name := by
  rw [SourceTree.declaredName] at hname
  cases hn : node.nameNode? with
  | none =>
    rw [hn] at hname
    exact Except.ok.inj hname ▸ hempty
  | some child =>
    rw [hn] at hname
    exact (h.child (Node.nameNode?_mem hn)).text (Node.nameNode?_kind hn) hname

end

theorem avoids_of_texts {tree : SourceTree} {name : String}
    (h : ∀ node ∈ tree.root.preorder, node.kind = .name .identifier →
      (tree.text node).toOption ≠ some name) : tree.Avoids name := by
  intro node hnode hk ht
  apply h node hnode hk
  rw [ht]
  rfl

theorem omits_of_avoids {tree : SourceTree} {root : String} (hroot : root ≠ "")
    (h : tree.Avoids root) : ∀ node ∈ tree.root.preorder, tree.Omits root node := by
  intro node hnode
  rw [Omits, written]
  split
  · rename_i name hname
    refine Identifiers.segments (P := (· ≠ root)) (fun n hn hk text ht he => ?_) hroot.symm hname
    exact h n (Node.preorder_trans hnode hn) hk (he ▸ ht)
  · exact fun s hs => by cases hs

end Syntax.SourceTree

namespace Symbols

/-! ## Trees that do not mention a root -/

/-- All namespaces of a table lie outside a root. -/
def Outside (root : String) (table : Table) : Prop :=
  ∀ n ∈ table.namespaces, n.root? ≠ some root

/-- What holds of all segments of a name holds of the namespaces that it enters. -/
theorem forall_segmentsOf {tree : SourceTree} {node : Node} {P : Segment → Prop}
    {segments : List Segment} (hs : segmentsOf tree node = .ok segments)
    (h : ∀ nameNode name, namespaceName? node = some nameNode → tree.nameOf nameNode = .ok name →
      ∀ s ∈ name.segments, P s) : ∀ s ∈ segments, P s := by
  rw [segmentsOf] at hs
  split at hs
  · cases hs
    exact List.forall_mem_nil _
  · rename_i nameNode hnode
    obtain ⟨name, hname, he⟩ := except_bind_ok.mp hs
    cases he
    exact h nameNode name hnode hname

theorem segmentsOf_omits {tree : SourceTree} {node : Node} {root : String}
    (h : ∀ n ∈ node.preorder, tree.Omits root n) {segments : List Segment}
    (hs : segmentsOf tree node = .ok segments) : ∀ s ∈ segments, s.name ≠ root := by
  refine forall_segmentsOf hs fun nameNode name hnode hname => ?_
  have homits := h nameNode (Node.child_mem_preorder (namespaceName?_mem hnode))
  rwa [SourceTree.Omits, SourceTree.written, hname] at homits

theorem Outside.withScope {root : String} {table : Table} (h : Outside root table)
    (tree : SourceTree) {segments : List Segment} (ha : ∀ s ∈ segments, s.name ≠ root)
    {scope : Scope} (hs : scope.home.root? ≠ some root) :
    Outside root (Table.withScope tree segments scope table).2 ∧
      (Table.withScope tree segments scope table).1.home.root? ≠ some root := by
  induction segments generalizing scope table with
  | nil => exact ⟨h, hs⟩
  | cons s rest ih =>
    obtain ⟨hhead, hrest⟩ := List.forall_mem_cons.mp ha
    have hchild := Namespace.root?_child hs hhead
    refine ih ?_ hrest hchild
    intro n hn
    change n ∈ (table.withNamespace (.child scope.home s.name)).namespaces at hn
    rw [Table.withNamespace] at hn
    split at hn
    · exact h n hn
    · rcases List.mem_append.mp hn with hold | hnew
      · exact h n hold
      · rw [List.mem_singleton.mp hnew]
        exact hchild

/-- **Nodes that do not mention a root declare nothing in it.** -/
theorem Declares.outside {tree : SourceTree} {scope : Scope} {within : Option TypePath}
    {nodes : List Node} {table last : Table} (h : Declares tree scope within nodes table last)
    {root : String} (hp : ∀ node ∈ nodes, ∀ n ∈ node.preorder, tree.Omits root n)
    (hs : scope.home.root? ≠ some root) (ho : Outside root table) : Outside root last := by
  have hbelow : ∀ {node inner : Node}, (∀ n ∈ node.preorder, tree.Omits root n) →
      inner ∈ node.preorder → ∀ n ∈ inner.preorder, tree.Omits root n :=
    fun hnode hi n hn => hnode n (Node.preorder_trans hi hn)
  induction h with
  | nil => exact ho
  | @directive scope within node rest table last d hk hd hr ih =>
    refine ih (List.forall_mem_cons.mp hp).2 hs ?_
    rw [Outside, Table.withDirective_namespaces]
    exact ho
  | @block scope within node rest table mid last segments hk hn hb hr ihb ihr =>
    obtain ⟨hnode, hrest⟩ := List.forall_mem_cons.mp hp
    obtain ⟨hentered, hhome⟩ := ho.withScope tree (segmentsOf_omits hnode hn) hs
    exact ihr hrest hs (ihb (fun n hn => hbelow hnode (members_mem hn)) hhome hentered)
  | @file scope within node rest table mid last segments hk hn hb hr ihb ihr =>
    obtain ⟨hnode, hrest⟩ := List.forall_mem_cons.mp hp
    obtain ⟨hentered, hhome⟩ := ho.withScope tree (segmentsOf_omits hnode hn) hs
    exact ihr hrest hhome
      (ihb (fun n hn => hbelow hnode (Node.child_mem_preorder hn)) hhome hentered)
  | storage hk hf hr ih => exact ih (List.forall_mem_cons.mp hp).2 hs ho
  | @type scope within node rest table mid last kind t parameters hk ht hb hr ihb ihr =>
    obtain ⟨hnode, hrest⟩ := List.forall_mem_cons.mp hp
    refine ihr hrest hs (ihb (fun n hn => hbelow hnode (openMembers_mem hn)) hs ?_)
    rw [Outside, Table.withType_namespaces]
    exact ho
  | @wrapper scope within node rest table mid last w hk hb hr ihb ihr =>
    obtain ⟨hnode, hrest⟩ := List.forall_mem_cons.mp hp
    exact ihr hrest hs (ihb (fun n hn => hbelow hnode (Node.child_mem_preorder hn)) hs ho)
  | skip hk hskip hr ih => exact ih (List.forall_mem_cons.mp hp).2 hs ho

theorem DeclaresTrees.outside {trees : List SourceTree} {table last : Table}
    (h : DeclaresTrees trees table last) {root : String}
    (hp : ∀ tree ∈ trees, ∀ n ∈ tree.root.preorder, tree.Omits root n) (ho : Outside root table) :
    Outside root last := by
  induction h with
  | nil => exact ho
  | cons ht hr ih =>
    obtain ⟨htree, htrees⟩ := List.forall_mem_cons.mp hp
    refine ih htrees (Declares.outside ht (fun node hn n hi => ?_) (by simp [Scope.home,
      Table.withFrame, Namespace.root?]) ho)
    exact htree n (Node.preorder_trans (Node.child_mem_preorder hn) hi)

theorem outside_empty (root : String) : Outside root .empty := by
  simp [Outside, Table.empty]

/-! ## Symbols outside a root -/

theorem Stored.home {table : Table} (h : Stored table) {t : TypePath}
    (ht : table.hasType t = true) : table.hasNamespace t.home = true := by
  induction t with
  | top home own => exact h.containers _ ht
  | nested outer own ih => exact ih (h.containers _ ht)

theorem Outside.namespace {root : String} {table : Table} (h : Outside root table) {n : Namespace}
    (hn : table.hasNamespace n = true) : n.root? ≠ some root := by
  cases n with
  | global => simp [Namespace.root?]
  | child parent name => exact h _ ((table.hasNamespace_child parent name).mp hn)

theorem Outside.type {root : String} {table : Table} (h : Outside root table) (hs : Stored table)
    {t : TypePath} (ht : table.hasType t = true) : t.home.root? ≠ some root :=
  h.namespace (hs.home ht)

end Symbols

end PrintGen
