import PrintGen.Proofs.Declares
import PrintGen.Syntax.Candidate

/-!
# Fields stand in the table in source order

The pass enters declarations from the top and leaves out much of a tree, whereas a scan visits every
node. Still the fields that the pass adds fall into blocks, one for each node of the tree in source
order, and only a field declaration with an attribute list has fields with attributes in its block.
-/

namespace PrintGen.Symbols

open Syntax

/-- What a field in the block of a site may look like. -/
structure Belongs (s : Site) (f : FieldEntry) : Prop where
  origin : f.origin = none ∨ f.origin = some (s.tree.key s.node) ∧ s.node.kind = .fieldDeclaration
  attributes : f.attributes ≠ [] →
    f.origin = some (s.tree.key s.node) ∧ s.node.isAnnotatedField = true

/-- Fields in blocks, one block per site in the order of the sites. A block may be empty. -/
inductive Blocks : List Site → List FieldEntry → Prop
  | nil : Blocks [] []
  | cons {s sites block fields} (hb : ∀ f ∈ block, Belongs s f) (hr : Blocks sites fields) :
      Blocks (s :: sites) (block ++ fields)

/-- The fields come from these sites: they fall into blocks, and the nodes that name them are among
the sites in the same order. -/
structure FieldsFrom (sites : List Site) (fields : List FieldEntry) : Prop where
  blocks : Blocks sites fields
  named : (fields.map FieldEntry.site).Sublist sites

/-- A site may have no fields. -/
theorem Blocks.skip {s : Site} {sites : List Site} {fields : List FieldEntry}
    (h : Blocks sites fields) : Blocks (s :: sites) fields :=
  Blocks.cons (fun _ hf => absurd hf List.not_mem_nil) h

theorem Blocks.empty (sites : List Site) : Blocks sites [] := by
  induction sites with
  | nil => exact .nil
  | cons s rest ih => exact ih.skip

theorem Blocks.site {sites : List Site} {fields : List FieldEntry} (h : Blocks sites fields)
    {f : FieldEntry} (hf : f ∈ fields) : ∃ s ∈ sites, Belongs s f := by
  induction h with
  | nil => cases hf
  | @cons s sites block fields hb _ ih =>
    rcases List.mem_append.mp hf with hblock | hrest
    · exact ⟨s, by simp, hb f hblock⟩
    · obtain ⟨s', hs', hb'⟩ := ih hrest
      exact ⟨s', by simp [hs'], hb'⟩

theorem Blocks.append {sites more : List Site} {fields others : List FieldEntry}
    (h : Blocks sites fields) (hm : Blocks more others) :
    Blocks (sites ++ more) (fields ++ others) := by
  induction h with
  | nil => exact hm
  | cons hb _ ih =>
    rw [List.cons_append, List.append_assoc]
    exact .cons hb ih

theorem Blocks.mono {sites more : List Site} {fields : List FieldEntry} (h : Blocks sites fields)
    (hs : sites.Sublist more) : Blocks more fields := by
  induction hs generalizing fields with
  | slnil => exact h
  | cons s _ ih => exact (ih h).skip
  | cons_cons s _ ih =>
    cases h with
    | cons hb hr => exact .cons hb (ih hr)

namespace FieldsFrom

theorem empty (sites : List Site) : FieldsFrom sites [] :=
  ⟨Blocks.empty sites, List.nil_sublist _⟩

theorem append {sites more : List Site} {fields others : List FieldEntry}
    (h : FieldsFrom sites fields) (hm : FieldsFrom more others) :
    FieldsFrom (sites ++ more) (fields ++ others) := by
  refine ⟨h.blocks.append hm.blocks, ?_⟩
  rw [List.map_append]
  exact h.named.append hm.named

theorem mono {sites more : List Site} {fields : List FieldEntry} (h : FieldsFrom sites fields)
    (hs : sites.Sublist more) : FieldsFrom more fields :=
  ⟨h.blocks.mono hs, h.named.trans hs⟩

end FieldsFrom

/-- All nodes below some nodes of a tree, as sites. -/
def sitesBelow (tree : SourceTree) (nodes : List Node) : List Site :=
  (Node.preorders nodes).map (Site.mk tree)

theorem sitesBelow_cons (tree : SourceTree) (node : Node) (rest : List Node) :
    sitesBelow tree (node :: rest) = node.preorder.map (Site.mk tree) ++ sitesBelow tree rest := by
  rw [sitesBelow, Node.preorders, List.map_append]
  rfl

theorem children_sublist (tree : SourceTree) (node : Node) :
    (sitesBelow tree node.children).Sublist (node.preorder.map (Site.mk tree)) := by
  rw [Node.preorder_eq]
  exact (List.sublist_cons_self _ _).map _

theorem members_sublist (tree : SourceTree) (node : Node) :
    (sitesBelow tree (members node)).Sublist (node.preorder.map (Site.mk tree)) := by
  rw [members]
  cases hb : node.body? with
  | none => exact List.nil_sublist _
  | some body =>
    have hmem : body ∈ node.children := List.mem_of_find?_eq_some hb
    exact (children_sublist tree body).trans ((Node.preorder_child hmem).map _)

theorem openMembers_sublist (table : Table) (t : TypePath) (tree : SourceTree) (node : Node) :
    (sitesBelow tree (openMembers table t node)).Sublist (node.preorder.map (Site.mk tree)) := by
  rw [openMembers]
  split
  · exact List.nil_sublist _
  · exact members_sublist tree node

/-! ## The fields of one member -/

theorem declarators_sublist (node : Node) :
    (node.declarators?.getD []).Sublist node.preorder := by
  rw [Node.declarators?, Node.firstChild?]
  cases hd : node.children.find? fun child => child.kind = .variableDeclaration with
  | none => exact List.nil_sublist _
  | some declaration =>
    have hmem : declaration ∈ node.children := List.mem_of_find?_eq_some hd
    have hsub : (declaration.childrenOf .variableDeclarator).Sublist declaration.preorder := by
      rw [Node.preorder_eq]
      exact (List.filter_sublist.trans (Node.sublist_preorders _)).trans
        (List.sublist_cons_self _ _)
    exact hsub.trans (Node.preorder_child hmem)

theorem isAnnotatedField_of_attributeNames {node : Node} (hk : node.kind = .fieldDeclaration)
    (h : node.attributeNames ≠ []) : node.isAnnotatedField = true := by
  rw [Node.attributeNames, ne_eq, List.flatMap_eq_nil_iff] at h
  push Not at h
  obtain ⟨list, hl, _⟩ := h
  rw [Node.childrenOf, List.mem_filter] at hl
  simp only [Node.isAnnotatedField, Node.hasChild, hk, decide_true, Bool.true_and, List.any_eq_true]
  exact ⟨list, hl⟩

/-- Fields read off a list of nodes, one each, are named by these nodes. -/
theorem site_of_mapM {tree : SourceTree} {read : Node → Except Fault FieldEntry}
    {nodes : List Node} {fields : List FieldEntry} (h : nodes.mapM read = .ok fields)
    (hs : ∀ node field, read node = .ok field → field.site = ⟨tree, node⟩) :
    fields.map FieldEntry.site = nodes.map (Site.mk tree) := by
  have hall := mapM_ok_iff.mp h
  induction hall with
  | nil => rfl
  | @cons node field nodes fields hf hr ih =>
    rw [List.map_cons, List.map_cons, hs node field hf, ih (mapM_ok_iff.mpr hr)]

theorem forall_of_mapM {α β ε : Type} {read : α → Except ε β} {as : List α} {bs : List β}
    {P : β → Prop} (h : as.mapM read = .ok bs) (hp : ∀ a b, read a = .ok b → P b) :
    ∀ b ∈ bs, P b := by
  have hall := mapM_ok_iff.mp h
  induction hall with
  | nil => simp
  | @cons a b as bs hb hr ih =>
    intro c hc
    rcases List.mem_cons.mp hc with rfl | hc
    · exact hp a c hb
    · exact ih (mapM_ok_iff.mpr hr) c hc

/-- What a member adds to its type. -/
theorem storedFields_spec {tree : SourceTree} {scope : Scope} {owner : TypePath}
    {kind : Option TypeKind} {node : Node} {fields : List FieldEntry}
    (h : storedFields tree scope owner kind node = .ok fields) :
    (∀ f ∈ fields, Belongs ⟨tree, node⟩ f ∧ f.owner = owner) ∧
      (fields.map FieldEntry.site).Sublist (node.preorder.map (Site.mk tree)) := by
  rw [storedFields] at h
  split at h
  · rename_i hk
    obtain ⟨modifiers, _, hf⟩ := except_bind_ok.mp h
    have hread : ∀ declarator field,
        plainField tree node scope owner modifiers declarator = .ok field →
        (Belongs ⟨tree, node⟩ field ∧ field.owner = owner) ∧ field.site = ⟨tree, declarator⟩ := by
      intro declarator field hr
      obtain ⟨name, _, he⟩ := except_bind_ok.mp hr
      cases he
      refine ⟨⟨⟨.inr ⟨rfl, hk⟩, fun ha => ⟨rfl, ?_⟩⟩, rfl⟩, rfl⟩
      exact isAnnotatedField_of_attributeNames hk (by simpa using ha)
    refine ⟨forall_of_mapM hf fun d f hr => (hread d f hr).1, ?_⟩
    rw [site_of_mapM hf fun d f hr => (hread d f hr).2]
    exact (declarators_sublist node).map _
  · obtain ⟨modifiers, _, hf⟩ := except_bind_ok.mp h
    split at hf
    · obtain ⟨field, hb, he⟩ := except_bind_ok.mp hf
      obtain ⟨name, _, hfield⟩ := except_bind_ok.mp hb
      cases hfield
      cases he
      constructor
      · simp only [List.mem_singleton, forall_eq]
        exact ⟨⟨.inl rfl, fun ha => absurd rfl ha⟩, trivial⟩
      · rw [Node.preorder_eq]
        exact (List.nil_sublist _).cons_cons _
    · cases hf
      exact ⟨by simp, List.nil_sublist _⟩
  · obtain ⟨modifiers, _, hf⟩ := except_bind_ok.mp h
    split at hf
    · have hread : ∀ declarator field, eventField tree owner modifiers declarator = .ok field →
          (Belongs ⟨tree, node⟩ field ∧ field.owner = owner) ∧
            field.site = ⟨tree, declarator⟩ := by
        intro declarator field hr
        obtain ⟨name, _, he⟩ := except_bind_ok.mp hr
        cases he
        exact ⟨⟨⟨.inl rfl, fun ha => absurd rfl ha⟩, rfl⟩, rfl⟩
      refine ⟨forall_of_mapM hf fun d f hr => (hread d f hr).1, ?_⟩
      rw [site_of_mapM hf fun d f hr => (hread d f hr).2]
      exact (declarators_sublist node).map _
    · cases hf
      exact ⟨by simp, List.nil_sublist _⟩
  · cases h
    exact ⟨by simp, List.nil_sublist _⟩

theorem storedFields_from {tree : SourceTree} {scope : Scope} {owner : TypePath}
    {kind : Option TypeKind} {node : Node} {fields : List FieldEntry}
    (h : storedFields tree scope owner kind node = .ok fields) :
    FieldsFrom (node.preorder.map (Site.mk tree)) fields := by
  obtain ⟨hb, hs⟩ := storedFields_spec h
  refine ⟨?_, hs⟩
  rw [Node.preorder_eq, List.map_cons]
  have hblock := Blocks.cons (s := ⟨tree, node⟩) (fun f hf => (hb f hf).1)
    (Blocks.empty ((Node.preorders node.children).map (Site.mk tree)))
  rwa [List.append_nil] at hblock

/-! ## The fields of a pass -/

/-- **The pass adds fields in source order.** -/
theorem Declares.fieldsFrom {tree : SourceTree} {scope : Scope} {within : Option TypePath}
    {nodes : List Node} {table last : Table} (h : Declares tree scope within nodes table last) :
    ∃ new, last.fields = table.fields ++ new ∧ FieldsFrom (sitesBelow tree nodes) new := by
  induction h with
  | nil => exact ⟨[], by simp, .empty _⟩
  | directive hk hd hr ih =>
    obtain ⟨new, he, hn⟩ := ih
    refine ⟨new, by rw [he, Table.withDirective_fields], ?_⟩
    rw [sitesBelow_cons]
    exact hn.mono (List.sublist_append_right _ _)
  | @block scope within node rest table mid last segments hk hn hb hr ihb ihr =>
    obtain ⟨inside, hei, hni⟩ := ihb
    obtain ⟨after, hea, hna⟩ := ihr
    refine ⟨inside ++ after, by rw [hea, hei, Table.withScope_fields, List.append_assoc], ?_⟩
    rw [sitesBelow_cons]
    exact (hni.mono (members_sublist tree node)).append hna
  | @file scope within node rest table mid last segments hk hn hb hr ihb ihr =>
    obtain ⟨inside, hei, hni⟩ := ihb
    obtain ⟨after, hea, hna⟩ := ihr
    refine ⟨inside ++ after, by rw [hea, hei, Table.withScope_fields, List.append_assoc], ?_⟩
    rw [sitesBelow_cons]
    exact (hni.mono (children_sublist tree node)).append hna
  | @storage scope owner node rest table last fields hk hf hr ih =>
    obtain ⟨new, he, hn⟩ := ih
    refine ⟨fields ++ new, by rw [he, Table.withFields, List.append_assoc], ?_⟩
    rw [sitesBelow_cons]
    exact (storedFields_from hf).append hn
  | @type scope within node rest table mid last kind t parameters hk ht hb hr ihb ihr =>
    obtain ⟨inside, hei, hni⟩ := ihb
    obtain ⟨after, hea, hna⟩ := ihr
    refine ⟨inside ++ after, by rw [hea, hei, Table.withType_fields, List.append_assoc], ?_⟩
    rw [sitesBelow_cons]
    exact (hni.mono (openMembers_sublist _ _ tree node)).append hna
  | @wrapper scope within node rest table mid last w hk hb hr ihb ihr =>
    obtain ⟨inside, hei, hni⟩ := ihb
    obtain ⟨after, hea, hna⟩ := ihr
    refine ⟨inside ++ after, by rw [hea, hei, List.append_assoc], ?_⟩
    rw [sitesBelow_cons]
    exact (hni.mono (children_sublist tree node)).append hna
  | skip hk hs hr ih =>
    obtain ⟨new, he, hn⟩ := ih
    refine ⟨new, he, ?_⟩
    rw [sitesBelow_cons]
    exact hn.mono (List.sublist_append_right _ _)

/-- All nodes of some trees, in tree order and then in source order. -/
def allSites (trees : List SourceTree) : List Site :=
  trees.flatMap fun tree => tree.root.preorder.map (Site.mk tree)

theorem DeclaresTrees.fieldsFrom {trees : List SourceTree} {table last : Table}
    (h : DeclaresTrees trees table last) :
    ∃ new, last.fields = table.fields ++ new ∧ FieldsFrom (allSites trees) new := by
  induction h with
  | nil => exact ⟨[], by simp, .empty _⟩
  | @cons tree rest table mid last ht hr ih =>
    obtain ⟨inside, hei, hni⟩ := Declares.fieldsFrom ht
    obtain ⟨after, hea, hna⟩ := ih
    refine ⟨inside ++ after, by rw [hea, hei, Table.withFrame, List.append_assoc], ?_⟩
    rw [allSites, List.flatMap_cons]
    exact (hni.mono (children_sublist tree tree.root)).append hna

end PrintGen.Symbols
