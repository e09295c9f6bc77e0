import PrintGen.Proofs.Legible
import Mathlib.Data.List.Infix

/-!
# Scopes and marks

Every level of a scope and every using directive gets a mark that no other one has. A mark is made
of the tree and of the number of marks that the tree has already, so it is new because all marks
have lower ranks. It follows that a scope is known by the mark of its innermost level, which is all
that binding needs: a well-formed compilation has the model that its table determines.
-/

namespace PrintGen

open Syntax

namespace Symbols

/-- Every mark has a rank below the number of marks of its tree. -/
def Ranked (marks : List Mark) : Prop :=
  ∀ m ∈ marks, m.rank < Table.rankIn m.tree marks

theorem rankIn_append (tree : TreeId) (marks more : List Mark) :
    Table.rankIn tree (marks ++ more) = Table.rankIn tree marks + Table.rankIn tree more :=
  List.countP_append

theorem Ranked.fresh {marks : List Mark} (h : Ranked marks) (tree : TreeId) :
    (⟨tree, Table.rankIn tree marks⟩ : Mark) ∉ marks := by
  intro hm
  have hlt := h _ hm
  dsimp only at hlt
  omega

theorem Ranked.add {marks : List Mark} (h : Ranked marks) (tree : TreeId) :
    Ranked (marks ++ [⟨tree, Table.rankIn tree marks⟩]) := by
  intro m hm
  rw [rankIn_append]
  rcases List.mem_append.mp hm with hold | hnew
  · have hlt := h m hold
    omega
  · obtain rfl := List.mem_singleton.mp hnew
    have hone : Table.rankIn tree [⟨tree, Table.rankIn tree marks⟩] = 1 := by
      simp [Table.rankIn]
    dsimp only
    omega

/-- The bases after a type declaration: those before, and perhaps the one that it names. -/
theorem mem_withType_bases {table : Table} {tree : SourceTree} {node : Node} {kind : TypeKind}
    {scope : Scope} {t : TypePath} {parameters : List String} {b : BaseReference}
    (h : b ∈ (table.withType tree node kind scope t parameters).bases) :
    b ∈ table.bases ∨ ∃ name, node.baseName? = some name ∧
      b = ⟨t, ⟨⟨tree, name⟩, scope, t.outer?⟩⟩ := by
  rw [Table.withType_eq] at h
  change b ∈ (table.withBase t tree node.baseName? scope).bases at h
  cases hname : node.baseName? with
  | none =>
    rw [hname] at h
    exact .inl h
  | some name =>
    rw [hname, Table.withBase] at h
    split at h
    · exact .inl h
    · rcases List.mem_append.mp h with hold | hnew
      · exact .inl hold
      · exact .inr ⟨name, rfl, List.mem_singleton.mp hnew⟩

/-- The levels of a table are known by their marks, its references stand in scopes that it has, and
a scope is one of these. -/
structure Anchored (table : Table) (scope : Scope) (registered : Scope → Prop) : Prop extends
    Scoped table registered where
  here : registered scope
  known : ∀ {frame outer}, registered (frame :: outer) → frame.mark ∈ table.frames
  frames : Ranked table.frames
  ranks : Ranked (table.usings.map Using.mark)
  levels : ∀ u ∈ table.usings, ∀ mark, u.frame = some mark → mark ∈ table.frames
  bases : ∀ b ∈ table.bases, registered b.name.scope
  attributes : ∀ f ∈ table.fields, ∀ r ∈ f.attributes, registered r.scope

/-- There are scopes that a table can be bound with, and the given one is among them. -/
def Settled (table : Table) (scope : Scope) : Prop :=
  ∃ registered, Anchored table scope registered

theorem settled_empty : Settled .empty [] := by
  refine ⟨fun scope => scope = [], ?_⟩
  constructor
  · constructor
    · intro frame outer h
      cases h
    · intro frame other outer others h
      cases h
    · intro frame outer h
      cases h
    · exact List.nodup_nil
  · rfl
  · intro frame outer h
    cases h
  · intro m hm
    cases hm
  · intro m hm
    cases hm
  · intro u hu
    cases hu
  · intro b hb
    cases hb
  · intro f hf
    cases hf

/-! ## One step -/

section

variable {table : Table} {scope : Scope} {registered : Scope → Prop}

theorem Anchored.of_eq {last : Table} (h : Anchored table scope registered)
    (hf : last.frames = table.frames) (hu : last.usings = table.usings)
    (hb : last.bases = table.bases) (hfields : last.fields = table.fields) :
    Anchored last scope registered := by
  obtain ⟨⟨outer, mark, file, marks⟩, here, known, frames, ranks, levels, bases, attributes⟩ := h
  rw [← hu] at marks ranks levels
  rw [← hb] at bases
  rw [← hfields] at attributes
  rw [← hf] at frames levels
  exact ⟨⟨outer, mark, file, marks⟩, here, fun hr => hf ▸ known hr, frames, ranks, levels, bases,
    attributes⟩

/-- What surrounds a registered scope is registered. -/
theorem Scoped.suffix (h : Scoped table registered) {inner : Scope} (hr : registered inner)
    (hs : scope <:+ inner) : registered scope := by
  induction inner with
  | nil =>
    rw [List.suffix_nil.mp hs]
    exact hr
  | cons frame outer ih =>
    rcases List.suffix_cons_iff.mp hs with rfl | houter
    · exact hr
    · exact ih (h.outer hr) houter

/-- All levels of a registered scope are known. -/
theorem Anchored.levels_known (h : Anchored table scope registered) {inner : Scope}
    (hr : registered inner) : ∀ frame ∈ inner, frame.mark ∈ table.frames := by
  induction inner with
  | nil => exact List.forall_mem_nil _
  | cons frame outer ih => exact List.forall_mem_cons.mpr ⟨h.known hr, ih (h.outer hr)⟩

theorem Anchored.suffix {inner : Scope} (h : Anchored table inner registered)
    (hs : scope <:+ inner) : Anchored table scope registered :=
  { h with here := h.toScoped.suffix h.here hs }

/-- A new level has a mark of its own. -/
theorem Anchored.withFrame (h : Anchored table scope registered) (tree : SourceTree)
    (home : Namespace) (isFile : Bool) (hf : isFile = true → home = .global ∧ scope = []) :
    Anchored (table.withFrame tree home isFile).2
      ((table.withFrame tree home isFile).1 :: scope)
      (fun s => registered s ∨ s = (table.withFrame tree home isFile).1 :: scope) := by
  have hfresh := h.frames.fresh tree.id
  have hnew : ∀ {frame outer}, registered (frame :: outer) →
      frame.mark ≠ ⟨tree.id, Table.rankIn tree.id table.frames⟩ :=
    fun hr he => hfresh (he ▸ h.known hr)
  constructor
  · constructor
    · rintro frame outer (hr | hr)
      · exact .inl (h.outer hr)
      · cases hr
        exact .inl h.here
    · rintro frame other outer others (hr | hr) (hr' | hr') hm
      · exact h.mark hr hr' hm
      · cases hr'
        exact absurd hm (hnew hr)
      · cases hr
        exact absurd hm.symm (hnew hr')
      · rw [hr, hr']
    · rintro frame outer (hr | hr) hfile
      · exact h.file hr hfile
      · cases hr
        exact hf hfile
    · exact h.marks
  · exact .inr rfl
  · rintro frame outer (hr | hr)
    · exact List.mem_append_left _ (h.known hr)
    · cases hr
      exact List.mem_append_right _ (List.mem_singleton.mpr rfl)
  · exact h.frames.add tree.id
  · exact h.ranks
  · exact fun u hu mark hm => List.mem_append_left _ (h.levels u hu mark hm)
  · exact fun b hb => .inl (h.bases b hb)
  · exact fun f hfield r hr => .inl (h.attributes f hfield r hr)

theorem Settled.withScope (h : Settled table scope) (tree : SourceTree)
    (segments : List Segment) :
    Settled (Table.withScope tree segments scope table).2
      (Table.withScope tree segments scope table).1 := by
  induction segments generalizing scope table with
  | nil => exact h
  | cons s rest ih =>
    obtain ⟨registered, ha⟩ := h
    have hnamespace : Anchored (table.withNamespace (.child scope.home s.name)) scope registered :=
      ha.of_eq (by rw [Table.withNamespace_eq]) (by rw [Table.withNamespace_eq])
        (by rw [Table.withNamespace_eq]) (by rw [Table.withNamespace_eq])
    exact ih ⟨_, hnamespace.withFrame tree _ false (by intro hf; cases hf)⟩

theorem withScope_suffix (tree : SourceTree) (segments : List Segment) (scope : Scope)
    (table : Table) : scope <:+ (Table.withScope tree segments scope table).1 := by
  induction segments generalizing scope table with
  | nil => exact List.suffix_refl scope
  | cons s rest ih => exact (List.suffix_cons _ _).trans (ih _ _)

theorem Settled.suffix {inner : Scope} (h : Settled table inner) (hs : scope <:+ inner) :
    Settled table scope := by
  obtain ⟨registered, ha⟩ := h
  exact ⟨registered, ha.suffix hs⟩

/-- So has a new directive. -/
theorem Settled.withDirective (h : Settled table scope) (tree : SourceTree) (node : Node)
    (d : Option (Option String × Node)) :
    Settled (table.withDirective tree node scope d) scope := by
  obtain ⟨registered, ha⟩ := h
  cases d with
  | none => exact ⟨registered, ha⟩
  | some directive =>
    obtain ⟨aliasName, target⟩ := directive
    have hranks := ha.ranks.add tree.id
    refine ⟨registered, ⟨⟨ha.outer, ha.mark, ha.file, ?_⟩, ha.here, ha.known, ha.frames, ?_, ?_,
      ha.bases, ha.attributes⟩⟩
    · rw [Table.withDirective, List.map_append, List.nodup_append']
      refine ⟨ha.marks, List.nodup_singleton _, ?_⟩
      rw [List.disjoint_right]
      intro m hm
      obtain rfl := List.mem_singleton.mp hm
      exact ha.ranks.fresh tree.id
    · rw [Table.withDirective, List.map_append]
      exact hranks
    · intro u hu mark hm
      rcases List.mem_append.mp hu with hold | hnew
      · exact ha.levels u hold mark hm
      · -- The directive stands in the innermost level of the scope, or in none.
        obtain rfl := List.mem_singleton.mp hnew
        dsimp only at hm
        split at hm
        · cases hm
        · obtain ⟨frame, hframe, rfl⟩ := Option.map_eq_some_iff.mp hm
          obtain ⟨outer, rfl⟩ := List.head?_eq_some_iff.mp hframe
          exact ha.known ha.here

theorem Settled.withType (h : Settled table scope) (tree : SourceTree) (node : Node)
    (kind : TypeKind) (t : TypePath) (parameters : List String) :
    Settled (table.withType tree node kind scope t parameters) scope := by
  obtain ⟨registered, ha⟩ := h
  refine ⟨registered, ⟨⟨ha.outer, ha.mark, ha.file, ?_⟩, ha.here, ?_, ?_, ?_, ?_, ?_, ?_⟩⟩
  · rw [Table.withType_usings]
    exact ha.marks
  · rw [Table.withType_frames]
    exact ha.known
  · rw [Table.withType_frames]
    exact ha.frames
  · rw [Table.withType_usings]
    exact ha.ranks
  · rw [Table.withType_usings, Table.withType_frames]
    exact ha.levels
  · intro b hb
    rcases mem_withType_bases hb with hold | ⟨name, _, rfl⟩
    · exact ha.bases b hold
    · exact ha.here
  · rw [Table.withType_fields]
    exact ha.attributes

theorem Settled.withFields (h : Settled table scope) {fields : List FieldEntry}
    (hf : ∀ f ∈ fields, ∀ r ∈ f.attributes, r.scope = scope) :
    Settled (table.withFields fields) scope := by
  obtain ⟨registered, ha⟩ := h
  refine ⟨registered, ⟨⟨ha.outer, ha.mark, ha.file, ha.marks⟩, ha.here, ha.known, ha.frames,
    ha.ranks, ha.levels, ha.bases, ?_⟩⟩
  intro f hmem r hr
  rcases List.mem_append.mp hmem with hold | hnew
  · exact ha.attributes f hold r hr
  · exact hf f hnew r hr ▸ ha.here

end

/-! ## The whole pass -/

theorem Declares.settled {tree : SourceTree} {scope : Scope} {within : Option TypePath}
    {nodes : List Node} {table last : Table} (h : Declares tree scope within nodes table last)
    (hs : Settled table scope) : Settled last scope := by
  induction h with
  | nil => exact hs
  | directive hk hd hr ih => exact ih (hs.withDirective _ _ _)
  | @block scope within node rest table mid last segments hk hn hb hr ihb ihr =>
    have hmid := ihb (hs.withScope tree segments)
    exact ihr (hmid.suffix (withScope_suffix tree segments scope table))
  | @file scope within node rest table mid last segments hk hn hb hr ihb ihr =>
    have hmid := ihb (hs.withScope tree segments)
    exact (ihr hmid).suffix (withScope_suffix tree segments scope table)
  | storage hk hf hr ih =>
    refine ih (hs.withFields fun f hmem r hr => ?_)
    obtain ⟨_, name, _, rfl⟩ := storedFields_references hf f hmem r hr
    rfl
  | type hk ht hb hr ihb ihr => exact ihr (ihb (hs.withType _ _ _ _ _))
  | wrapper hk hb hr ihb ihr => exact ihr (ihb hs)
  | skip hk hs' hr ih => exact ih hs

theorem DeclaresTree.settled {tree : SourceTree} {table last : Table}
    (h : DeclaresTree tree table last) (hs : Settled table []) : Settled last [] := by
  obtain ⟨registered, ha⟩ := hs
  have hstart := ha.withFrame tree .global true fun _ => ⟨rfl, rfl⟩
  exact (Declares.settled h ⟨_, hstart⟩).suffix List.nil_suffix

theorem DeclaresTrees.settled {trees : List SourceTree} {table last : Table}
    (h : DeclaresTrees trees table last) (hs : Settled table []) : Settled last [] := by
  induction h with
  | nil => exact hs
  | cons ht hr ih => exact ih (ht.settled hs)

/-! ## Names as they are written -/

/-- All names that are to be bound stand at nodes with a property. -/
structure Names (P : SourceTree → Node → Prop) (table : Table) : Prop where
  usings : ∀ u ∈ table.usings, P u.tree u.target
  bases : ∀ b ∈ table.bases, P b.name.site.tree b.name.site.node
  attributes : ∀ f ∈ table.fields, ∀ r ∈ f.attributes, P r.site.tree r.site.node

/-- The names that are read at a node. -/
def namesRead (node : Node) : List Node :=
  match node.kind with
  | .usingDirective => usingNames node.children
  | .namespaceDeclaration | .fileScopedNamespace => (namespaceName? node).toList
  | .typeDeclaration _ => node.baseName?.toList
  | .fieldDeclaration => node.attributeNames
  | _ => []

theorem namesRead_mem {node name : Node} (h : name ∈ namesRead node) : name ∈ node.preorder := by
  rw [namesRead] at h
  split at h
  · obtain ⟨child, hc, hname⟩ := usingNames_mem h
    exact Node.preorder_trans (Node.child_mem_preorder hc) hname
  · exact Node.child_mem_preorder (namespaceName?_mem (Option.mem_toList.mp h))
  · exact Node.child_mem_preorder (namespaceName?_mem (Option.mem_toList.mp h))
  · exact baseName?_mem (Option.mem_toList.mp h)
  · exact attributeNames_mem h
  · cases h

section

variable {P : SourceTree → Node → Prop}

theorem Names.of_eq {table last : Table} (h : Names P table)
    (hu : last.usings = table.usings) (hb : last.bases = table.bases)
    (hf : last.fields = table.fields) : Names P last :=
  ⟨hu ▸ h.usings, hb ▸ h.bases, hf ▸ h.attributes⟩

/-- **What all names have that are read, all names have that are recorded.** -/
theorem Declares.names {tree : SourceTree} {scope : Scope} {within : Option TypePath}
    {nodes : List Node} {table last : Table} (h : Declares tree scope within nodes table last)
    (hp : ∀ node ∈ nodes, ∀ n ∈ node.preorder, ∀ name ∈ namesRead n, P tree name)
    (hr : Names P table) : Names P last := by
  have hbelow : ∀ {node inner : Node}, (∀ n ∈ node.preorder, ∀ name ∈ namesRead n, P tree name) →
      inner ∈ node.preorder → ∀ n ∈ inner.preorder, ∀ name ∈ namesRead n, P tree name :=
    fun hnode hi n hn => hnode n (Node.preorder_trans hi hn)
  have hread : ∀ {node : Node}, (∀ n ∈ node.preorder, ∀ name ∈ namesRead n, P tree name) →
      ∀ name ∈ namesRead node, P tree name :=
    fun {node} hnode => hnode node (Node.mem_preorder_self node)
  induction h with
  | nil => exact hr
  | @directive scope within node rest table last d hk hd hrest ih =>
    obtain ⟨hnode, hnodes⟩ := List.forall_mem_cons.mp hp
    refine ih hnodes ?_
    cases d with
    | none => exact hr
    | some directive =>
      obtain ⟨aliasName, target⟩ := directive
      refine ⟨List.forall_mem_append.mpr ⟨hr.usings, ?_⟩, hr.bases, hr.attributes⟩
      refine List.forall_mem_singleton.mpr (hread hnode target ?_)
      rw [namesRead, hk]
      exact directiveOf_target hd
  | @block scope within node rest table mid last segments hk hn hb hrest ihb ihr =>
    obtain ⟨hnode, hnodes⟩ := List.forall_mem_cons.mp hp
    exact ihr hnodes (ihb (fun n hn => hbelow hnode (members_mem hn))
      (hr.of_eq (by simp) (by simp) (by simp)))
  | @file scope within node rest table mid last segments hk hn hb hrest ihb ihr =>
    obtain ⟨hnode, hnodes⟩ := List.forall_mem_cons.mp hp
    exact ihr hnodes (ihb (fun n hn => hbelow hnode (Node.child_mem_preorder hn))
      (hr.of_eq (by simp) (by simp) (by simp)))
  | @storage scope owner node rest table last fields hk hf hrest ih =>
    obtain ⟨hnode, hnodes⟩ := List.forall_mem_cons.mp hp
    refine ih hnodes ⟨hr.usings, hr.bases, List.forall_mem_append.mpr ⟨hr.attributes, ?_⟩⟩
    intro f hmem r hr
    obtain ⟨hfield, name, hname, rfl⟩ := storedFields_references hf f hmem r hr
    refine hread hnode name ?_
    rw [namesRead, hfield]
    exact hname
  | @type scope within node rest table mid last kind t parameters hk ht hb hrest ihb ihr =>
    obtain ⟨hnode, hnodes⟩ := List.forall_mem_cons.mp hp
    refine ihr hnodes (ihb (fun n hn => hbelow hnode (openMembers_mem hn))
      ⟨by simpa using hr.usings, ?_, by simpa using hr.attributes⟩)
    intro b hb
    rcases mem_withType_bases hb with hold | ⟨name, hname, rfl⟩
    · exact hr.bases b hold
    · refine hread hnode name ?_
      rw [namesRead, hk]
      exact Option.mem_toList.mpr hname
  | @wrapper scope within node rest table mid last w hk hb hrest ihb ihr =>
    obtain ⟨hnode, hnodes⟩ := List.forall_mem_cons.mp hp
    exact ihr hnodes (ihb (fun n hn => hbelow hnode (Node.child_mem_preorder hn)) hr)
  | skip hk hs hrest ih => exact ih (List.forall_mem_cons.mp hp).2 hr

theorem DeclaresTrees.namesRead {trees : List SourceTree} {table last : Table}
    (h : DeclaresTrees trees table last)
    (hp : ∀ tree ∈ trees, ∀ n ∈ tree.root.preorder, ∀ name ∈ namesRead n, P tree name)
    (hr : Names P table) : Names P last := by
  induction h with
  | nil => exact hr
  | cons ht hrest ih =>
    obtain ⟨htree, htrees⟩ := List.forall_mem_cons.mp hp
    refine ih htrees (Declares.names ht (fun node hn n hi => ?_) (hr.of_eq rfl rfl rfl))
    exact htree n (Node.preorder_trans (Node.child_mem_preorder hn) hi)

theorem DeclaresTrees.names {trees : List SourceTree} {table last : Table}
    (h : DeclaresTrees trees table last)
    (hp : ∀ tree ∈ trees, ∀ n ∈ tree.root.preorder, P tree n) (hr : Names P table) :
    Names P last :=
  h.namesRead (fun tree ht _ hn name hname =>
    hp tree ht name (Node.preorder_trans hn (namesRead_mem hname))) hr

theorem names_empty : Names P .empty := by
  refine ⟨?_, ?_, ?_⟩ <;> simp [Table.empty]

end

/-- In well-formed trees all names can be read. -/
theorem DeclaresTrees.readable {trees : List SourceTree} {table : Table}
    (h : DeclaresTrees trees .empty table) (hw : ∀ tree ∈ trees, tree.WellFormed) :
    Names SourceTree.Reads table :=
  h.names (fun tree ht _ hn => ((hw tree ht).of_mem hn).reads) names_empty

theorem Anchored.bindable {table : Table} {scope : Scope} {registered : Scope → Prop}
    (h : Anchored table scope registered) (hr : Names SourceTree.Reads table) :
    Bindable table registered :=
  ⟨⟨h.toScoped, hr.usings⟩, fun b hb => ⟨h.bases b hb, hr.bases b hb⟩,
    fun f hf r hmem => ⟨h.attributes f hf r hmem, hr.attributes f hf r hmem⟩⟩

theorem declaresTrees_total {trees : List SourceTree} (hw : ∀ tree ∈ trees, tree.WellFormed)
    (table : Table) : ∃ last, DeclaresTrees trees table last := by
  induction trees generalizing table with
  | nil => exact ⟨table, .nil⟩
  | cons tree rest ih =>
    obtain ⟨mid, hm⟩ := declares_total (fun n hn => (hw tree (by simp)).child hn) _ none
      (table.withFrame tree .global true).2
    obtain ⟨last, hl⟩ := ih (fun t ht => hw t (by simp [ht])) mid
    exact ⟨last, .cons hm hl⟩

/-- **A well-formed compilation has the model that its table determines.** -/
theorem build_wellFormed {trees : List SourceTree} (hw : ∀ tree ∈ trees, tree.WellFormed) :
    (build trees).fault = none ∧ DeclaresTrees trees .empty (build trees).model.table ∧
      (build trees).model = (build trees).model.table.bound := by
  obtain ⟨table, hd⟩ := declaresTrees_total hw .empty
  obtain ⟨registered, ha⟩ := hd.settled settled_empty
  obtain ⟨hfault, hmodel⟩ := bindTable_eq (ha.bindable (hd.readable hw))
  obtain ⟨hf, hm⟩ := build_declared hd
  have htable : (build trees).model.table = table := by rw [hm, bindTable_table]
  exact ⟨hf.trans hfault, htable ▸ hd, by rw [htable, hm, hmodel]⟩

end Symbols

theorem Marker.wellFormed : Marker.tree.WellFormed := by
  apply SourceTree.wellFormed_ascii
  · rw [Marker.tree_content, Marker.source_toList]
    decide +kernel
  · decide

/-- A well-formed compilation has a resolver, whose model is the one that its table determines. -/
theorem Resolver.found_wellFormed {trees : List SourceTree}
    (hw : ∀ tree ∈ trees, tree.WellFormed) :
    ∃ r, found trees = .ok r ∧ r.model = r.model.table.bound ∧ r.marker = some Marker.type ∧
      Symbols.DeclaresTrees (trees ++ [Marker.tree]) .empty r.model.table := by
  have hall : ∀ tree ∈ trees ++ [Marker.tree], tree.WellFormed := by
    rw [List.forall_mem_append, List.forall_mem_singleton]
    exact ⟨hw, Marker.wellFormed⟩
  obtain ⟨hfault, hdeclares, hmodel⟩ := Symbols.build_wellFormed hall
  refine ⟨⟨(compiled trees).model, some Marker.type⟩, ?_, hmodel, rfl, hdeclares⟩
  have hnone : (compiled trees).fault = none := hfault
  rw [found, hnone]

end PrintGen
