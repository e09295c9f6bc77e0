import PrintGen.Proofs.Alike
import PrintGen.Proofs.RootNamespaces

/-!
# A tree in a root namespace of its own

A tree that declares everything in one root namespace adds records about that root only. Declared
after trees that never mention the root, it makes the same records as alone, and its symbols stand
beside theirs.
-/

namespace PrintGen.Symbols

open Syntax

/-- All that a tree declares lies in a root namespace, and it has no directive for all files. -/
structure KeepsTo (root : String) (tree : SourceTree) : Prop where
  namespaces : ∀ n ∈ (build [tree]).model.table.namespaces, n.root? = some root
  types : ∀ e ∈ (build [tree]).model.table.types, e.path.home.root? = some root
  usings : ∀ u ∈ (build [tree]).model.table.usings, u.frame ≠ none

/-- A second table has more symbols in a root namespace, and what a tree records of them. -/
structure Beside (root : String) (id : TreeId) (table other : Table) : Prop where
  namespaces : ∀ n, n.root? ≠ some root → other.hasNamespace n = table.hasNamespace n
  entries : ∀ t, t.home.root? ≠ some root → other.entryOf? t = table.entryOf? t
  bases : ∀ t, t.home.root? ≠ some root → other.base? t = table.base? t
  locals : ∀ mark, mark ∈ table.frames ∨ mark.tree ≠ id → other.locals mark = table.locals mark
  globals : other.globals = table.globals
  nodes : ∀ key, key.tree ≠ id → other.typeOfNode? key = table.typeOfNode? key
  ownNodes : ∀ key, key.tree = id → ∀ t, other.typeOfNode? key = some t →
    t.home.root? = some root
  fields : ∃ more, other.fields = table.fields ++ more ∧ ∀ f ∈ more,
    f.owner.home.root? = some root ∧ ∀ key, f.origin = some key → key.tree = id

/-! ## The records of the tree -/

/-- Fields come from nodes of the tree that declares them. -/
theorem DeclaresTree.origins {tree : SourceTree} {table last : Table}
    (h : DeclaresTree tree table last) : ∃ new, last.fields = table.fields ++ new ∧
      ∀ f ∈ new, ∀ key, f.origin = some key → key.tree = tree.id := by
  obtain ⟨new, hnew, hfrom⟩ := (DeclaresTrees.cons h .nil).fieldsFrom
  refine ⟨new, hnew, fun f hf key hkey => ?_⟩
  obtain ⟨s, hs, -, rfl⟩ := hfrom.blocks.origin_mem hf hkey
  obtain ⟨other, ho, hsite⟩ := List.mem_flatMap.mp hs
  obtain ⟨node, -, rfl⟩ := List.mem_map.mp hsite
  rw [List.mem_singleton.mp ho]
  rfl

section

variable {root : String} {tree : SourceTree} {table : Table} {es : List Event}

/-- Records of a tree that keeps to a root. -/
structure Confined (root : String) (tree : SourceTree) (es : List Event) : Prop where
  sent : ∀ e ∈ es, e.From tree
  homes : ∀ e ∈ es, ∀ n, e.home? = some n → n ≠ .global → n.root? = some root
  types : ∀ d ∈ declarationsIn es, d.path.home.root? = some root
  usings : ∀ u ∈ es.filterMap Event.using?, u.frame ≠ none
  fields : ∀ f ∈ es.flatMap Event.fields,
    f.owner.home.root? = some root ∧ ∀ key, f.origin = some key → key.tree = tree.id

/-- What a tree records after others: its directives stand in levels of its own, and the types are
those that it declares alone. -/
structure Joins (root : String) (tree : SourceTree) (table : Table) (es : List Event) : Prop extends
    Confined root tree es where
  declares : DeclaresTree tree table (table.after es)
  levels : ∀ u ∈ es.filterMap Event.using?, ∀ mark ∈ table.frames, u.frame ≠ some mark
  known : ∀ d ∈ declarationsIn es, (build [tree]).model.table.hasType d.path = true

theorem KeepsTo.home (h : KeepsTo root tree) {t : TypePath}
    (ht : (build [tree]).model.table.hasType t = true) : t.home.root? = some root := by
  obtain ⟨e, he, rfl⟩ := Table.exists_entry ht
  exact h.types e he

/-- Alone, a tree that keeps to a root makes such records. -/
theorem KeepsTo.confined (h : KeepsTo root tree) {es : List Event}
    (hd : DeclaresTree tree .empty (build [tree]).model.table) (hs : ∀ e ∈ es, e.From tree)
    (hr : (build [tree]).model.table = Table.empty.after es) : Confined root tree es := by
  refine ⟨hs, ?_, ?_, ?_, ?_⟩
  · intro e he n hn hne
    refine h.namespaces n (((Table.hasNamespace_iff _ n).mp ?_).resolve_left hne)
    rw [hr, Table.after_hasNamespace]
    exact .inr ⟨e, he, hn⟩
  · intro d hmem
    apply h.home
    rw [hr, Table.after_hasType]
    exact .inr (List.mem_map_of_mem hmem)
  · intro u hu
    apply h.usings u
    rw [hr, Table.after_usings]
    exact List.mem_append_right _ hu
  · intro f hf
    have hfields := Table.after_fields .empty es
    rw [← hr] at hfields
    have hmem : f ∈ (build [tree]).model.table.fields := by
      rw [hfields]
      exact List.mem_append_right _ hf
    obtain ⟨new, hnew, horigins⟩ := hd.origins
    have howners := (DeclaresTrees.cons hd .nil).ownersDeclared ownersDeclared_empty
    refine ⟨h.home (howners f hmem), horigins f ?_⟩
    rw [hnew] at hmem
    exact hmem

/-- What a tree records on its own, it records after any symbols outside its root. -/
theorem KeepsTo.joins (h : KeepsTo root tree) (hw : tree.WellFormed) (hfresh : Fresh tree table)
    (hout : ∀ t, table.hasType t = true → t.home.root? ≠ some root) :
    ∃ es, Joins root tree table es := by
  obtain ⟨-, hdeclares, -⟩ := build_wellFormed (List.forall_mem_singleton.mpr hw)
  have hd : DeclaresTree tree .empty (build [tree]).model.table := by
    cases hdeclares with
    | cons hd hnil =>
      cases hnil
      exact hd
  obtain ⟨es, hes⟩ := hd.replays
  have hconfined := h.confined hd hes.sent hes.result
  refine ⟨es, ⟨hconfined, ?_, ?_, ?_⟩⟩
  · refine hes.again table ⟨⟨hfresh.1.symm, hfresh.2.symm⟩, ?_, fun t ht => by cases ht⟩
    intro d hmem
    have hnone : table.kindOf? d.path = none := by
      cases hk : table.kindOf? d.path with
      | none => rfl
      | some kind =>
        exact absurd (hconfined.types d hmem) (hout _ ((Table.hasType_iff _ _).mpr ⟨kind, hk⟩))
    rw [hnone]
    rfl
  · intro u hu mark hmark hframe
    obtain ⟨e, he, hue⟩ := List.mem_filterMap.mp hu
    have htree := ((hes.sent e he).using hue).2 mark hframe
    exact List.countP_eq_zero.mp hfresh.1 mark hmark (decide_eq_true htree)
  · intro d hmem
    rw [hes.result, Table.after_hasType]
    exact .inr (List.mem_map_of_mem hmem)

theorem Confined.declarationsOf (h : Confined root tree es) {t : TypePath}
    (ht : t.home.root? ≠ some root) : Symbols.declarationsOf es t = [] := by
  rw [List.eq_nil_iff_forall_not_mem]
  intro d hd
  obtain ⟨hmem, rfl⟩ := mem_declarationsOf.mp hd
  exact ht (h.types d hmem)

theorem Confined.tree_of_key (h : Confined root tree es) {key : NodeKey} {d : Declaration}
    (hd : d ∈ declarationsAt es key) : key.tree = tree.id := by
  obtain ⟨hmem, hkey⟩ := List.mem_filter.mp hd
  obtain ⟨e, he, hde⟩ := List.mem_filterMap.mp hmem
  rw [← of_decide_eq_true hkey, ← (h.sent e he).declaration hde]
  rfl

/-- **A tree that keeps to a root adds its symbols beside the others.** -/
theorem Joins.beside (h : Joins root tree table es)
    (hnodes : ∀ key, key.tree = tree.id → table.typeOfNode? key = none) :
    Beside root tree.id table (table.after es) := by
  have hframes : ∀ u ∈ es.filterMap Event.using?, ∀ mark, u.frame = some mark →
      mark.tree = tree.id := by
    intro u hu
    obtain ⟨e, he, hue⟩ := List.mem_filterMap.mp hu
    exact ((h.sent e he).using hue).2
  constructor
  · intro n hn
    rw [Bool.eq_iff_iff, Table.after_hasNamespace]
    refine or_iff_left_of_imp ?_
    rintro ⟨e, he, hhome⟩
    by_cases hglobal : n = .global
    · rw [hglobal]
      rfl
    · exact absurd (h.homes e he n hhome hglobal) hn
  · intro t ht
    rw [Table.after_entryOf?, h.declarationsOf ht]
    rfl
  · intro t ht
    rw [Table.after_base?, h.declarationsOf ht, List.findSome?_nil, Option.or_none]
  · intro mark hmark
    have hnone : (es.filterMap Event.using?).filter (fun u => u.frame = some mark) = [] := by
      rw [List.filter_eq_nil_iff]
      intro u hu hf
      have hframe := of_decide_eq_true hf
      rcases hmark with hknown | hother
      · exact h.levels u hu mark hknown hframe
      · exact hother (hframes u hu mark hframe)
    rw [Table.locals, Table.after_usings, List.filter_append, hnone, List.append_nil]
    rfl
  · have hnone : (es.filterMap Event.using?).filter (fun u => u.frame = none) = [] := by
      rw [List.filter_eq_nil_iff]
      intro u hu hf
      exact h.usings u hu (of_decide_eq_true hf)
    rw [Table.globals, Table.after_usings, List.filter_append, hnone, List.append_nil]
    rfl
  · intro key hkey
    have hnone : declarationsAt es key = [] := by
      rw [List.eq_nil_iff_forall_not_mem]
      exact fun d hd => hkey (h.tree_of_key hd)
    rw [Table.after_typeOfNode?, hnone]
    rfl
  · intro key hkey t ht
    rw [Table.after_typeOfNode?, hnodes key hkey, Option.or_none] at ht
    obtain ⟨d, hd, rfl⟩ := Option.map_eq_some_iff.mp ht
    exact h.types d (List.mem_filter.mp (List.mem_of_getLast? hd)).1
  · exact ⟨_, Table.after_fields _ _, h.fields⟩

/-- What another tree records without fields keeps the symbols beside each other. -/
theorem Beside.after {id : TreeId} {other : Table} (h : Beside root id table other)
    (hs : ∀ e ∈ es, e.From tree) (hid : tree.id ≠ id) (hf : es.flatMap Event.fields = []) :
    Beside root id (table.after es) (other.after es) where
  namespaces n hn := by
    rw [Bool.eq_iff_iff, Table.after_hasNamespace, Table.after_hasNamespace, h.namespaces n hn]
  entries t ht := by rw [Table.after_entryOf?, Table.after_entryOf?, h.entries t ht]
  bases t ht := by rw [Table.after_base?, Table.after_base?, h.bases t ht]
  locals mark hm := by
    have hold : mark ∈ table.frames ∨ mark.tree ≠ id := by
      rw [Table.after_frames, List.mem_append] at hm
      rcases hm with (hknown | hnew) | hother
      · exact .inl hknown
      · obtain ⟨e, he, hmark⟩ := List.mem_filterMap.mp hnew
        rw [(hs e he).mark hmark]
        exact .inr hid
      · exact .inr hother
    have hlocals := h.locals mark hold
    rw [Table.locals, Table.locals] at hlocals ⊢
    rw [Table.after_usings, Table.after_usings, List.filter_append, List.filter_append, hlocals]
  globals := by
    have hglobals := h.globals
    rw [Table.globals, Table.globals] at hglobals ⊢
    rw [Table.after_usings, Table.after_usings, List.filter_append, List.filter_append, hglobals]
  nodes key hk := by rw [Table.after_typeOfNode?, Table.after_typeOfNode?, h.nodes key hk]
  ownNodes key hk t ht := by
    have hnone : declarationsAt es key = [] := by
      rw [declarationsAt, List.filter_eq_nil_iff]
      intro d hd hkey
      obtain ⟨e, he, hde⟩ := List.mem_filterMap.mp hd
      refine hid ?_
      rw [← hk, ← of_decide_eq_true hkey, ← (hs e he).declaration hde]
      rfl
    rw [Table.after_typeOfNode?, hnone] at ht
    exact h.ownNodes key hk t ht
  fields := by
    obtain ⟨more, hmore, hall⟩ := h.fields
    refine ⟨more, ?_, hall⟩
    rw [Table.after_fields, Table.after_fields, hf, List.append_nil, List.append_nil, hmore]

end

end PrintGen.Symbols
