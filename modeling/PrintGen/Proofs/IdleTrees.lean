import PrintGen.Proofs.AddedTree

/-!
# Trees that declare nothing

A tree can be part of a compilation twice. If it keeps to a root namespace that the compilation
never mentions, then it does not mention the root itself, so all that it has is directives, and the
second time it adds nothing but a level of its own with these directives.
-/

namespace PrintGen.Symbols

open Syntax

/-- The level of the file of a tree. -/
def fileMark (tree : SourceTree) (table : Table) : Mark :=
  ⟨tree.id, Table.rankIn tree.id table.frames⟩

/-- A tree that only opens the level of its file, perhaps with directives in it. -/
def Idle (tree : SourceTree) : Prop :=
  ∀ table, ∃ us : List Using,
    (∀ u ∈ us, u.mark.tree = tree.id ∧ u.frame = some (fileMark tree table)) ∧
    DeclaresTree tree table (table.after (.level (fileMark tree table) :: us.map .directive))

/-- A table without symbols and without directives for all files. -/
structure Barren (table : Table) : Prop where
  types : ∀ t, table.hasType t ≠ true
  namespaces : ∀ n, table.hasNamespace n = true → n = .global
  usings : ∀ u ∈ table.usings, u.frame ≠ none

theorem Barren.before {tree : SourceTree} {scope : Scope} {within : Option TypePath}
    {nodes : List Node} {table last : Table} (h : Barren last)
    (hd : Declares tree scope within nodes table last) : Barren table := by
  refine ⟨fun t ht => h.types t (hd.grows.hasType ht),
    fun n hn => h.namespaces n (hd.grows.namespaces n hn), fun u hu => h.usings u ?_⟩
  obtain ⟨es, rfl⟩ := hd.after
  rw [Table.after_usings]
  exact List.mem_append_left _ hu

/-- Only an empty name leads into no namespace. -/
theorem Barren.segments {tree : SourceTree} {segments : List Segment} {scope : Scope}
    {table : Table} (h : Barren (Table.withScope tree segments scope table).2) : segments = [] := by
  cases segments with
  | nil => rfl
  | cons s rest =>
    let home := Namespace.child scope.home s.name
    let entered := (table.withNamespace home).withFrame tree home false
    have hhome : entered.2.hasNamespace home = true := by
      change (table.withNamespace home).hasNamespace home = true
      rw [Table.withNamespace_has, Bool.or_eq_true]
      exact .inr (decide_eq_true rfl)
    have hlast := (Grows.withScope entered.2 tree (entered.1 :: scope) rest).namespaces home hhome
    have hglobal : Namespace.child scope.home s.name = .global := h.namespaces home hlast
    cases hglobal

/-- Nodes that add no symbol in one place add none in any other. -/
theorem Declares.idle {tree : SourceTree} {scope : Scope} {within : Option TypePath}
    {nodes : List Node} {table last : Table} (h : Declares tree scope within nodes table last)
    (hw : within = none) (hb : Barren last) (frame : Frame) (outer : Scope) (other : Table) :
    ∃ us : List Using, (∀ u ∈ us, u.mark.tree = tree.id ∧ u.frame = some frame.mark) ∧
      Declares tree (frame :: outer) none nodes other (other.after (us.map .directive)) := by
  have hjoin : ∀ (other : Table) (us more : List Using),
      (other.after (us.map .directive)).after (more.map .directive) =
        other.after ((us ++ more).map .directive) := by
    intro other us more
    rw [List.map_append, Table.after_append]
  induction h generalizing other with
  | nil => exact ⟨[], by simp, .nil⟩
  | @directive scope within node rest table last d hk hd hr ih =>
    cases d with
    | none =>
      obtain ⟨us, hus, hrest⟩ := ih hw hb other
      exact ⟨us, hus, .directive hk hd hrest⟩
    | some directive =>
      obtain ⟨aliasName, target⟩ := directive
      let u : Using := ⟨⟨tree.id, Table.rankIn tree.id (other.usings.map Using.mark)⟩,
        some frame.mark, tree, target, aliasName, node.hasChild .staticToken⟩
      -- The directive is not for all files, since no directive of the table is.
      have hlocal : node.hasChild .globalToken = false := by
        rw [← Bool.not_eq_true]
        intro hglobal
        refine (hb.before hr).usings _ (List.mem_append_right _ (List.mem_singleton_self _)) ?_
        rw [hglobal, if_pos rfl]
      have hown : other.withDirective tree node (frame :: outer) (some (aliasName, target)) =
          other.after [.directive u] := by
        simp only [Table.withDirective, hlocal]
        rfl
      obtain ⟨us, hus, hrest⟩ := ih hw hb (other.after ([u].map .directive))
      refine ⟨[u] ++ us, List.forall_mem_append.mpr
        ⟨List.forall_mem_singleton.mpr ⟨rfl, rfl⟩, hus⟩, .directive hk hd ?_⟩
      rw [hown, ← hjoin]
      exact hrest
  | @block scope within node rest table mid last segments hk hn hbody hr ihb ihr =>
    have hmid := hb.before hr
    obtain rfl := (hmid.before hbody).segments
    obtain ⟨us, hus, hinside⟩ := ihb rfl hmid other
    obtain ⟨more, hmore, hrest⟩ := ihr hw hb (other.after (us.map .directive))
    rw [hjoin] at hrest
    exact ⟨us ++ more, List.forall_mem_append.mpr ⟨hus, hmore⟩, .block hk hn hinside hrest⟩
  | @file scope within node rest table mid last segments hk hn hbody hr ihb ihr =>
    have hmid := hb.before hr
    obtain rfl := (hmid.before hbody).segments
    obtain ⟨us, hus, hinside⟩ := ihb rfl hmid other
    obtain ⟨more, hmore, hrest⟩ := ihr hw hb (other.after (us.map .directive))
    rw [hjoin] at hrest
    exact ⟨us ++ more, List.forall_mem_append.mpr ⟨hus, hmore⟩, .file hk hn hinside hrest⟩
  | storage hk hf hr ih => cases hw
  | @type scope within node rest table mid last kind t parameters hk ht hbody hr ihb ihr =>
    have hmid := (hb.before hr).before hbody
    exact absurd (Table.withType_hasType _ _ _ _ _ _ _) (hmid.types t)
  | @wrapper scope within node rest table mid last w hk hbody hr ihb ihr =>
    obtain ⟨us, hus, hinside⟩ := ihb hw (hb.before hr) other
    obtain ⟨more, hmore, hrest⟩ := ihr hw hb (other.after (us.map .directive))
    rw [hjoin] at hrest
    exact ⟨us ++ more, List.forall_mem_append.mpr ⟨hus, hmore⟩, .wrapper hk hinside hrest⟩
  | @skip scope within node rest table last hk hs hr ih =>
    obtain ⟨us, hus, hrest⟩ := ih hw hb other
    exact ⟨us, hus, .skip hk (.inl rfl) hrest⟩

/-- **A tree that keeps to a root and avoids its name declares nothing.** -/
theorem KeepsTo.idle {root : String} {tree : SourceTree} (h : KeepsTo root tree)
    (hw : tree.WellFormed) (ha : ∀ n ∈ tree.root.preorder, tree.Omits root n) : Idle tree := by
  obtain ⟨-, hdeclares, -⟩ := build_wellFormed (List.forall_mem_singleton.mpr hw)
  have hstored := hdeclares.stored Stored.empty
  have houtside := hdeclares.outside (List.forall_mem_singleton.mpr ha) (outside_empty root)
  have hbarren : Barren (build [tree]).model.table := by
    refine ⟨?_, ?_, h.usings⟩
    · exact fun t ht => houtside.type hstored ht (h.home ht)
    · intro n hn
      refine ((Table.hasNamespace_iff _ n).mp hn).resolve_right fun hmem => ?_
      exact houtside n hmem (h.namespaces n hmem)
  intro table
  cases hdeclares with
  | cons ht hnil =>
    cases hnil
    obtain ⟨us, hus, hd⟩ := Declares.idle ht rfl hbarren (table.withFrame tree .global true).1 []
      (table.withFrame tree .global true).2
    exact ⟨us, hus, hd⟩

section

variable {tree : SourceTree} {table last : Table}

theorem directives_nothing (mark : Mark) (us : List Using) :
    declarationsIn (.level mark :: us.map .directive) = [] ∧
      (Event.level mark :: us.map .directive).flatMap Event.fields = [] := by
  constructor
  · rw [declarationsIn, List.filterMap_cons_none rfl, List.filterMap_map]
    exact List.filterMap_eq_nil_iff.mpr fun u _ => rfl
  · rw [List.flatMap_cons, List.flatMap_map]
    exact List.flatMap_eq_nil_iff.mpr fun u _ => rfl

/-- Such a tree adds no field and no type. -/
theorem Idle.adds_nothing (h : Idle tree) (hd : DeclaresTree tree table last) :
    last.fields = table.fields ∧ ∀ key, last.typeOfNode? key = table.typeOfNode? key := by
  obtain ⟨us, -, hidle⟩ := h table
  obtain ⟨hdeclarations, hfields⟩ := directives_nothing (fileMark tree table) us
  rw [hd.unique hidle]
  constructor
  · rw [Table.after_fields, hfields, List.append_nil]
  · intro key
    rw [Table.after_typeOfNode?, declarationsAt, hdeclarations]
    rfl

theorem Idle.joins {root : String} (h : Idle tree) (hr : Ranked table.frames) :
    ∃ es, Joins root tree table es ∧ declarationsIn es = [] ∧ es.flatMap Event.fields = [] := by
  obtain ⟨us, hus, hd⟩ := h table
  obtain ⟨hdeclarations, hfields⟩ := directives_nothing (fileMark tree table) us
  have hdirectives : (Event.level (fileMark tree table) :: us.map .directive).filterMap
      Event.using? = us := by
    rw [List.filterMap_cons_none rfl, List.filterMap_map]
    exact List.filterMap_some
  refine ⟨_, ⟨⟨?_, ?_, ?_, ?_, ?_⟩, hd, ?_, ?_⟩, hdeclarations, hfields⟩
  · refine List.forall_mem_cons.mpr ⟨rfl, List.forall_mem_map.mpr fun u hu => ?_⟩
    obtain ⟨hmark, hframe⟩ := hus u hu
    refine ⟨hmark, fun mark hm => ?_⟩
    rw [hframe] at hm
    cases hm
    rfl
  · refine List.forall_mem_cons.mpr ⟨?_, List.forall_mem_map.mpr fun u hu => ?_⟩
    · intro n hn
      cases hn
    · intro n hn
      cases hn
  · rw [hdeclarations]
    exact fun d hd => by cases hd
  · rw [hdirectives]
    intro u hu hnone
    rw [(hus u hu).2] at hnone
    cases hnone
  · rw [hfields]
    exact fun f hf => by cases hf
  · rw [hdirectives]
    intro u hu mark hmark hframe
    rw [(hus u hu).2] at hframe
    cases hframe
    exact hr.fresh tree.id hmark
  · rw [hdeclarations]
    exact fun d hd => by cases hd

end

/-- Nothing in a table comes from the nodes of a tree. -/
structure Untouched (id : TreeId) (table : Table) : Prop where
  fields : ∀ f ∈ table.fields, ∀ key, f.origin = some key → key.tree ≠ id
  nodes : ∀ key, key.tree = id → table.typeOfNode? key = none

theorem untouched_empty (id : TreeId) : Untouched id .empty := by
  refine ⟨?_, fun _ _ => rfl⟩
  intro f hf
  cases hf

/-- Other trees leave the nodes of a tree alone, and so does the tree if it declares nothing. -/
theorem DeclaresTrees.untouched {trees : List SourceTree} {table last : Table}
    (h : DeclaresTrees trees table last) {id : TreeId}
    (hids : ∀ tree ∈ trees, tree.id = id → Idle tree) (hu : Untouched id table) :
    Untouched id last := by
  induction h with
  | nil => exact hu
  | @cons tree rest table mid last ht hr ih =>
    obtain ⟨htree, hrest⟩ := List.forall_mem_cons.mp hids
    refine ih hrest ?_
    by_cases hid : tree.id = id
    · obtain ⟨hfields, hnodes⟩ := (htree hid).adds_nothing ht
      exact ⟨hfields ▸ hu.fields, fun key hk => (hnodes key).trans (hu.nodes key hk)⟩
    · obtain ⟨new, hnew, horigins⟩ := ht.origins
      constructor
      · rw [hnew, List.forall_mem_append]
        refine ⟨hu.fields, fun f hf key hkey => ?_⟩
        rw [horigins f hf key hkey]
        exact hid
      · intro key hk
        have hfar : key ∉ declarationKeys tree tree.root.children := fun hmem =>
          hid ((tree_of_mem_declarationKeys hmem).symm.trans hk)
        rw [ht.typeOfNode? hfar]
        exact hu.nodes key hk

end PrintGen.Symbols
