import PrintGen.Proofs.Stubs
import PrintGen.Proofs.Visits

/-!
# The symbol table of a compilation

What the declaration pass leaves behind is a tree: every namespace stands in its parent, every type
in its container, every field in a type one of whose declarations is written around it. Nodes stand
for types as the walk over the trees says, and the list of all types has each of them once.
-/

namespace PrintGen.Symbols

open Syntax

namespace Stored

variable {table : Table}

theorem namespace_in_parent (h : Stored table) {n : Namespace}
    (hn : Reaches table (.ofNamespace n)) : n = .global ∨ ∃ parent name, n = .child parent name ∧
      Reaches table (.ofNamespace parent) ∧ (table.namespacesIn parent).count n = 1 ∧
      table.descend? (.ofNamespace parent) ⟨name, 0⟩ = some (.ofNamespace n) := by
  cases n with
  | global => exact .inl rfl
  | child parent name =>
    have hhas : table.hasNamespace (.child parent name) = true := (h.reaches_iff _).mp hn
    refine .inr ⟨parent, name, rfl, (h.reaches_iff _).mpr (h.parents parent name hhas), ?_, ?_⟩
    · refine List.count_eq_one_of_mem (h.namespaces.filter _) (List.mem_filter.mpr ⟨?_, by simp⟩)
      exact (table.hasNamespace_child parent name).mp hhas
    · simp [Table.descend?, hhas]

theorem type_in_container (h : Stored table) {t : TypePath} (ht : Reaches table (.ofType t)) :
    Reaches table t.container ∧ (table.typesInside t.container).count t = 1 ∧
      table.memberType? t.container t.own = some t ∧
      ∃ e, table.entryOf? t = some e ∧ e.parameters.length = t.own.arity ∧
        e.declarations ≠ [] := by
  have hhas : table.hasType t = true := (h.reaches_iff _).mp ht
  refine ⟨(h.reaches_iff _).mpr (h.containers t hhas), ?_, ?_, ?_⟩
  · rw [Table.typesInside_eq]
    refine List.count_eq_one_of_mem (h.types.filter _) (List.mem_filter.mpr ⟨?_, by simp⟩)
    exact (table.hasType_iff_mem t).mp hhas
  · rw [Table.memberType?_eq, TypePath.container_member, Table.type?, if_pos hhas]
  · have hsome := table.hasType_eq_isSome t
    rw [hhas] at hsome
    obtain ⟨e, he⟩ := Option.isSome_iff_exists.mp hsome.symm
    have hentry := h.entries e (List.mem_of_find?_eq_some he)
    rw [Table.entryOf?_path he] at hentry
    exact ⟨e, he, hentry⟩

end Stored

/-! ## Fields lie in their types -/

/-- A node lies inside a declaration of a type. -/
def Inside (table : Table) (t : TypePath) (tree : SourceTree) (node : Node) : Prop :=
  ∃ s ∈ table.sitesOf t, s.tree = tree ∧ node ∈ s.node.preorder

theorem Inside.after {table : Table} {t : TypePath} {tree : SourceTree} {node : Node}
    (h : Inside table t tree node) (es : List Event) : Inside (table.after es) t tree node := by
  obtain ⟨s, hs, hin⟩ := h
  refine ⟨s, ?_, hin⟩
  rw [Table.after_sitesOf]
  exact List.mem_append_left _ hs

/-- Every field is written inside a declaration of its type. -/
def FieldsInside (table : Table) : Prop :=
  ∀ f ∈ table.fields, Inside table f.owner f.site.tree f.site.node

theorem FieldsInside.after {table : Table} (h : FieldsInside table) {es : List Event}
    (hf : (table.after es).fields = table.fields) : FieldsInside (table.after es) := by
  intro f hmem
  rw [hf] at hmem
  exact (h f hmem).after es

theorem Declares.after {tree : SourceTree} {scope : Scope} {within : Option TypePath}
    {nodes : List Node} {table last : Table} (h : Declares tree scope within nodes table last) :
    ∃ es, last = table.after es := by
  obtain ⟨es, hes⟩ := h.walk (Grows.refl last)
  exact ⟨es, hes.result⟩

/-- What lies inside a member lies inside the declaration around it. -/
theorem Declares.fieldsInside {tree : SourceTree} {scope : Scope} {within : Option TypePath}
    {nodes : List Node} {table last : Table} (h : Declares tree scope within nodes table last)
    (hw : ∀ t, within = some t → ∀ node ∈ nodes, Inside table t tree node)
    (hf : FieldsInside table) : FieldsInside last := by
  induction h with
  | nil => exact hf
  | @directive scope within node rest table last d hk hd hr ih =>
    obtain ⟨es, hes, -⟩ := withDirective_records table tree node scope d
    have hfields := table.withDirective_fields tree node scope d
    rw [hes] at ih hfields
    exact ih (fun t ht n hn => (hw t ht n (by simp [hn])).after es) (hf.after hfields)
  | @block scope within node rest table mid last segments hk hn hb hr ihb ihr
  | @file scope within node rest table mid last segments hk hn hb hr ihb ihr =>
    obtain ⟨es, hes, -⟩ := withScope_records tree segments scope table
    obtain ⟨inside, hinside⟩ := hb.after
    have hfields := table.withScope_fields tree scope segments
    rw [hes] at ihb hfields hinside
    have hmid := ihb (fun t ht => by cases ht) (hf.after hfields)
    rw [hinside] at ihr hmid
    exact ihr (fun t ht n hn => ((hw t ht n (by simp [hn])).after es).after inside) hmid
  | @storage scope owner node rest table last fields hk hfs hr ih =>
    have hkept : ∀ t tree node, Inside table t tree node →
        Inside (table.withFields fields) t tree node :=
      fun t tree node h => h.after [.storage fields]
    refine ih (fun t ht n hn => hkept _ _ _ (hw t ht n (by simp [hn]))) ?_
    intro f hmem
    rcases List.mem_append.mp hmem with hold | hnew
    · exact hkept _ _ _ (hf f hold)
    · -- A new field is named by a node inside the member that declares it.
      obtain ⟨howned, hsites⟩ := storedFields_spec hfs
      obtain ⟨inner, hinner, hsite⟩ := List.mem_map.mp (hsites.subset (List.mem_map_of_mem hnew))
      obtain ⟨s, hs, htree, hnode⟩ := hkept _ _ _ (hw owner rfl node (by simp))
      rw [(howned f hnew).2, ← hsite]
      exact ⟨s, hs, htree, Node.preorder_trans hnode hinner⟩
  | @type scope within node rest table mid last kind t parameters hk ht hb hr ihb ihr =>
    let d : Declaration := ⟨tree, node, kind, scope, t, parameters⟩
    have hrecord : table.withType tree node kind scope t parameters =
        table.after [.declaration d] := rfl
    obtain ⟨inside, hinside⟩ := hb.after
    have hfields := table.withType_fields tree node scope kind t parameters
    rw [hrecord] at ihb hfields hinside
    have hmid := ihb ?_ (hf.after hfields)
    · rw [hinside] at ihr hmid
      exact ihr (fun u hu n hn => ((hw u hu n (by simp [hn])).after _).after inside) hmid
    · intro u hu n hn
      cases hu
      refine ⟨d.site, ?_, rfl, ?_⟩
      · rw [Table.after_sitesOf]
        have hown : d ∈ declarationsOf [.declaration d] t :=
          mem_declarationsOf.mpr ⟨List.mem_singleton_self d, rfl⟩
        exact List.mem_append_right _ (List.mem_map_of_mem hown)
      · have hmem : n ∈ Node.preorders (openMembers (table.after [.declaration d]) t node) :=
          (Node.sublist_preorders _).subset hn
        rw [Node.preorder_eq]
        exact List.mem_cons_of_mem _ ((preorders_openMembers _ _ _).subset hmem)
  | @wrapper scope within node rest table mid last w hk hb hr ihb ihr =>
    obtain ⟨inside, hinside⟩ := hb.after
    have hmid := ihb ?_ hf
    · rw [hinside] at ihr hmid
      exact ihr (fun t ht n hn => (hw t ht n (by simp [hn])).after inside) hmid
    · intro t ht n hn
      obtain ⟨s, hs, htree, hnode⟩ := hw t ht node (by simp)
      have hchild := (Node.preorder_child hn).subset (Node.mem_preorder_self n)
      exact ⟨s, hs, htree, Node.preorder_trans hnode hchild⟩
  | skip hk hs hr ih => exact ih (fun t ht n hn => hw t ht n (by simp [hn])) hf

theorem DeclaresTrees.fieldsInside {trees : List SourceTree} {table last : Table}
    (h : DeclaresTrees trees table last) (hf : FieldsInside table) : FieldsInside last := by
  induction h with
  | nil => exact hf
  | cons ht hr ih => exact ih (Declares.fieldsInside ht (fun t ht => by cases ht) hf)

/-! ## Nodes and types -/

section

variable {trees : List SourceTree} {table : Table}

/-- A visited node stands for the type of its name and arity in its container, and is among the
declarations of that type. -/
theorem typeOfNode?_visited {es : List Event} (hw : Walks table trees .empty table es)
    (hkey : ∀ d ∈ declarationsIn es, ∀ e ∈ declarationsIn es,
      d.site.key = e.site.key → d.path = e.path) :
    ∀ d ∈ declarationsIn es, table.typeOfNode? d.site.key = some d.path ∧
      d.site ∈ table.sitesOf d.path := by
  intro d hd
  have hat : d ∈ declarationsAt es d.site.key := List.mem_filter.mpr ⟨hd, by simp⟩
  constructor
  · rw [hw.result, Table.after_typeOfNode?]
    cases hlast : (declarationsAt es d.site.key).getLast? with
    | none =>
      rw [List.getLast?_eq_none_iff] at hlast
      rw [hlast] at hat
      cases hat
    | some e =>
      obtain ⟨he, hk⟩ := List.mem_filter.mp (List.mem_of_getLast? hlast)
      rw [Option.map_some, Option.some_or, hkey e he d hd (of_decide_eq_true hk)]
  · rw [hw.result, Table.after_sitesOf]
    exact List.mem_append_right _ (List.mem_map_of_mem (mem_declarationsOf.mpr ⟨hd, rfl⟩))

end

/-- **The symbol table is a tree of symbols.** Reached from the global namespace, every namespace is
held once by its parent under its own name, and every type once by its container under its own name
and arity, with as many type parameters and at least one declaration. The fields of a type belong to
it and are written inside one of its declarations. Two visited declarations are of one type exactly
if container, name and number of type parameters agree. All types are listed, each once, by their
first visits, which are in tree order and then in source order. -/
theorem symbols_in_containers (trees : List SourceTree)
    (hids : ∀ a ∈ trees, ∀ b ∈ trees, a.id = b.id → a = b)
    (hkeys : ∀ tree ∈ trees, KeysDistinct Kind.isTypeDeclaration tree) :
    (∀ table, declareTrees trees .empty = .ok () table →
      (∀ n, Reaches table (.ofNamespace n) →
        n = .global ∨ ∃ parent name, n = .child parent name ∧
          Reaches table (.ofNamespace parent) ∧ (table.namespacesIn parent).count n = 1 ∧
          table.descend? (.ofNamespace parent) ⟨name, 0⟩ = some (.ofNamespace n)) ∧
      (∀ t, Reaches table (.ofType t) →
        Reaches table t.container ∧ (table.typesInside t.container).count t = 1 ∧
          table.memberType? t.container t.own = some t ∧
          ∃ e, table.entryOf? t = some e ∧ e.parameters.length = t.own.arity ∧
            e.declarations ≠ []) ∧
      (∀ f ∈ table.fields, Reaches table (.ofType f.owner)) ∧
      (∀ t, ∀ f ∈ table.fieldsOf t,
        f.owner = t ∧ Inside table t f.site.tree f.site.node) ∧
      ∃ visited, visitsOf table trees = .ok visited ∧
        (visited.map Visit.site).Sublist (allSites trees) ∧
        (∀ v ∈ visited, ∃ t, table.typeOfNode? v.site.key = some t ∧ v.site ∈ table.sitesOf t) ∧
        (∀ v ∈ visited, ∀ w ∈ visited,
          table.typeOfNode? v.site.key = table.typeOfNode? w.site.key ↔
            v.container = w.container ∧ v.name = w.name ∧
              v.parameters.length = w.parameters.length) ∧
        table.allTypes = (visited.filterMap fun v => table.typeOfNode? v.site.key).eraseDups ∧
        table.allTypes.Nodup ∧ ∀ t, t ∈ table.allTypes ↔ Reaches table (.ofType t)) ∧
    ((∀ tree ∈ trees, tree.WellFormed) → ∃ table, declareTrees trees .empty = .ok () table) := by
  constructor
  · intro table hrun
    have hd := declareTrees_iff.mp hrun
    have hstored := hd.stored Stored.empty
    obtain ⟨es, hw⟩ := hd.walk (Grows.refl table)
    have hvisit := visit_of_key hd hw.visited hids hkeys
    -- Nodes with one key were visited in one way, so they declared one type.
    have hkey : ∀ d ∈ declarationsIn es, ∀ e ∈ declarationsIn es,
        d.site.key = e.site.key → d.path = e.path := by
      intro d hd e he hk
      rw [← hw.typed d hd, ← hw.typed e he,
        hvisit _ (List.mem_map_of_mem hd) _ (List.mem_map_of_mem he) hk]
    have hnode := typeOfNode?_visited hw hkey
    have hlisted : table.allTypes = ((declarationsIn es).map Declaration.path).eraseDups := by
      have hindex := (indexOf_types (declarationsIn es) hkey).1
      rw [← after_nodeTypes, ← hw.result] at hindex
      exact hindex
    refine ⟨fun n => hstored.namespace_in_parent, fun t => hstored.type_in_container, ?_, ?_,
      _, hw.visited, ?_, ?_, ?_, ?_, ?_, ?_⟩
    · intro f hf
      exact (hstored.reaches_iff _).mpr (hd.ownersDeclared ownersDeclared_empty f hf)
    · intro t f hf
      obtain ⟨hmem, howner⟩ := List.mem_filter.mp hf
      obtain rfl := of_decide_eq_true howner
      exact ⟨rfl, hd.fieldsInside (by simp [FieldsInside, Table.empty]) f hmem⟩
    · rw [List.map_map]
      exact hw.order
    · intro v hv
      obtain ⟨d, hd, rfl⟩ := List.mem_map.mp hv
      exact ⟨d.path, hnode d hd⟩
    · intro v hv w hw'
      obtain ⟨d, hd, rfl⟩ := List.mem_map.mp hv
      obtain ⟨e, he, rfl⟩ := List.mem_map.mp hw'
      have hsame : d.path = e.path ↔ d.visit.type = e.visit.type := by
        rw [hw.typed d hd, hw.typed e he]
      change table.typeOfNode? d.site.key = table.typeOfNode? e.site.key ↔ _
      rw [(hnode d hd).1, (hnode e he).1, Option.some.injEq, hsame, Visit.type, Visit.type,
        Entity.member_inj, Segment.mk.injEq]
    · rw [hlisted, List.filterMap_map]
      congr 1
      rw [← List.filterMap_eq_map]
      apply List.filterMap_congr
      intro d hd
      exact (hnode d hd).1.symm
    · exact nodup_eraseDups _
    · intro t
      have hhas : Reaches table (.ofType t) ↔ table.hasType t = true := hstored.reaches_iff _
      rw [hlisted, List.mem_eraseDups, hhas, ← hasType_after, ← hw.result]
  · intro hwf
    obtain ⟨table, hd⟩ := declaresTrees_total hwf .empty
    exact ⟨table, declareTrees_iff.mpr hd⟩

theorem symbols_of_sample : ∃ table, declareTrees Sample.trees .empty = .ok () table ∧
    table.allTypes = [Sample.owner, .nested Sample.owner ⟨"B", 0⟩] ∧
    (table.typesInside (.ofType Sample.owner)).count (.nested Sample.owner ⟨"B", 0⟩) = 1 ∧
    ∃ visited, visitsOf table Sample.trees = .ok visited ∧
      (visited.filterMap fun v => table.typeOfNode? v.site.key).eraseDups =
        [Sample.owner, .nested Sample.owner ⟨"B", 0⟩] := by
  have hids : ∀ a ∈ Sample.trees, ∀ b ∈ Sample.trees, a.id = b.id → a = b := by
    simp [Sample.trees, Sample.first, Sample.second]
  have hspec := symbols_in_containers Sample.trees hids (by decide +kernel)
  obtain ⟨table, hrun⟩ := hspec.2 Sample.wellFormed
  obtain ⟨-, htypes, -, -, visited, hv, -, -, -, hlisted, -, hreach⟩ := hspec.1 table hrun
  have htable : declaredTable Sample.trees = table := by
    rw [declaredTable, hrun]
  have hall : table.allTypes = [Sample.owner, .nested Sample.owner ⟨"B", 0⟩] := by
    rw [← htable]
    decide +kernel
  have hnested := htypes _ ((hreach (.nested Sample.owner ⟨"B", 0⟩)).mp (by simp [hall]))
  exact ⟨table, hrun, hall, hnested.2.1, visited, hv, hlisted.symm.trans hall⟩

end PrintGen.Symbols
