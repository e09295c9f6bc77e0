import Mathlib.Data.List.Nodup
import PrintGen.Proofs.Growth

/-!
# Symbols in their containers

A namespace stands in its parent under its name, a type in its container under its name and arity.
The declaration pass creates a symbol only inside a container that exists, and no symbol twice, so
what the table holds is what can be reached from the global namespace.
-/

namespace PrintGen.Symbols

open Syntax

/-- What a type lies directly in. -/
def TypePath.container : TypePath → Entity
  | top home _ => .ofNamespace home
  | nested outer _ => .ofType outer

namespace Entity

/-- The type of a name and arity directly inside a container. -/
def member : Entity → Segment → TypePath
  | ofNamespace n, s => .top n s
  | ofType t, s => .nested t s

/-- What a declaration lies directly in: the type around it, else the namespace. -/
def around (home : Namespace) : Option TypePath → Entity
  | some outer => ofType outer
  | none => ofNamespace home

@[simp] theorem member_container (c : Entity) (s : Segment) : (c.member s).container = c := by
  cases c <;> rfl

@[simp] theorem member_own (c : Entity) (s : Segment) : (c.member s).own = s := by
  cases c <;> rfl

/-- A type is known by its container, its name and its arity. -/
theorem member_inj {c d : Entity} {s u : Segment} : c.member s = d.member u ↔ c = d ∧ s = u := by
  constructor
  · intro h
    have hc := congrArg TypePath.container h
    have hs := congrArg TypePath.own h
    rw [member_container, member_container] at hc
    rw [member_own, member_own] at hs
    exact ⟨hc, hs⟩
  · rintro ⟨rfl, rfl⟩
    rfl

end Entity

theorem TypePath.container_member (t : TypePath) : t.container.member t.own = t := by
  cases t <;> rfl

theorem pathOf_eq (scope : Scope) (within : Option TypePath) (own : Segment) :
    pathOf scope within own = (Entity.around scope.home within).member own := by
  cases within <;> rfl

namespace Table

/-- Whether a symbol exists. -/
def has (table : Table) : Entity → Bool
  | .ofNamespace n => table.hasNamespace n
  | .ofType t => table.hasType t

/-- The types directly inside a container, in order of declaration. -/
def typesInside (table : Table) : Entity → List TypePath
  | .ofNamespace n => table.typesIn n
  | .ofType t => table.nestedIn t

theorem typesInside_eq (table : Table) (c : Entity) :
    table.typesInside c = table.paths.filter fun t => t.container = c := by
  cases c with
  | ofNamespace n =>
    apply List.filter_congr
    intro t _
    cases t <;> simp [TypePath.container]
  | ofType outer =>
    apply List.filter_congr
    intro t _
    cases t <;> simp [TypePath.container, TypePath.outer?]

theorem mem_typesInside {table : Table} {c : Entity} {t : TypePath} :
    t ∈ table.typesInside c ↔ table.hasType t = true ∧ t.container = c := by
  rw [typesInside_eq, List.mem_filter, hasType_iff_mem, decide_eq_true_eq]

theorem memberType?_eq (table : Table) (c : Entity) (s : Segment) :
    table.memberType? c s = table.type? (c.member s) := by
  cases c <;> rfl

theorem hasNamespace_iff (table : Table) (n : Namespace) :
    table.hasNamespace n = true ↔ n = .global ∨ n ∈ table.namespaces := by
  simp [hasNamespace]

theorem hasNamespace_child (table : Table) (n : Namespace) (name : String) :
    table.hasNamespace (.child n name) = true ↔ .child n name ∈ table.namespaces := by
  simp [hasNamespace]

end Table

/-- What can be reached from the global namespace through the members of containers. -/
inductive Reaches (table : Table) : Entity → Prop
  | global : Reaches table (.ofNamespace .global)
  | inner {n m : Namespace} (hn : Reaches table (.ofNamespace n)) (hm : m ∈ table.namespacesIn n) :
      Reaches table (.ofNamespace m)
  | type {c : Entity} {t : TypePath} (hc : Reaches table c) (ht : t ∈ table.typesInside c) :
      Reaches table (.ofType t)

/-- Every symbol is stored once, inside a container that exists. -/
structure Stored (table : Table) : Prop where
  namespaces : table.namespaces.Nodup
  proper : .global ∉ table.namespaces
  parents : ∀ n name, table.hasNamespace (.child n name) = true → table.hasNamespace n = true
  types : table.paths.Nodup
  containers : ∀ t, table.hasType t = true → table.has t.container = true
  entries : ∀ e ∈ table.types, e.parameters.length = e.path.own.arity ∧ e.declarations ≠ []

namespace Stored

variable {table : Table}

theorem empty : Stored .empty := by
  refine ⟨List.nodup_nil, List.not_mem_nil, ?_, List.nodup_nil, ?_, ?_⟩
  · intro n name h
    simp [Table.hasNamespace, Table.empty] at h
  · intro t h
    cases h
  · intro e h
    cases h

/-- Only namespaces and types count. -/
theorem of_eq (h : Stored table) {last : Table} (ht : last.types = table.types)
    (hn : last.namespaces = table.namespaces) : Stored last := by
  have hhome : ∀ n, last.hasNamespace n = table.hasNamespace n := by
    intro n
    rw [Table.hasNamespace, hn]
    rfl
  have hpaths : last.paths = table.paths := by
    rw [Table.paths, ht]
    rfl
  have htype : ∀ t, last.hasType t = table.hasType t := by
    intro t
    rw [Table.hasType, ht]
    rfl
  have hhas : ∀ c, last.has c = table.has c := by
    intro c
    cases c with
    | ofNamespace n => exact hhome n
    | ofType t => exact htype t
  refine ⟨hn ▸ h.namespaces, hn ▸ h.proper, ?_, hpaths ▸ h.types, ?_, ht ▸ h.entries⟩
  · intro n name
    rw [hhome, hhome]
    exact h.parents n name
  · intro t
    rw [htype, hhas]
    exact h.containers t

theorem withFrame (h : Stored table) (tree : SourceTree) (home : Namespace) (isFile : Bool) :
    Stored (table.withFrame tree home isFile).2 :=
  h.of_eq rfl rfl

theorem withNamespace (h : Stored table) {parent : Namespace} (name : String)
    (hp : table.hasNamespace parent = true) : Stored (table.withNamespace (.child parent name)) := by
  have hhas := table.withNamespace_has (.child parent name)
  have hpaths : (table.withNamespace (.child parent name)).paths = table.paths := by
    rw [Table.paths, Table.withNamespace_types]
    rfl
  have htype : ∀ t, (table.withNamespace (.child parent name)).hasType t = table.hasType t := by
    intro t
    rw [Table.hasType, Table.withNamespace_types]
    rfl
  refine ⟨?_, ?_, ?_, hpaths ▸ h.types, ?_, by rw [Table.withNamespace_types]; exact h.entries⟩
  · rw [Table.withNamespace]
    split
    · exact h.namespaces
    · rename_i hnew
      refine h.namespaces.append (List.nodup_singleton _) ?_
      rw [List.disjoint_singleton, ← Table.hasNamespace_child]
      exact hnew
  · rw [Table.withNamespace]
    split
    · exact h.proper
    · simpa using h.proper
  · intro n other hc
    rw [hhas, Bool.or_eq_true, decide_eq_true_eq] at hc
    rw [hhas, Bool.or_eq_true]
    rcases hc with hold | hnew
    · exact .inl (h.parents n other hold)
    · cases hnew
      exact .inl hp
  · intro t ht
    rw [htype] at ht
    have hc := h.containers t ht
    cases hcon : t.container with
    | ofNamespace n =>
      rw [hcon] at hc
      change Table.hasNamespace _ n = true
      rw [hhas, Bool.or_eq_true]
      exact .inl hc
    | ofType outer =>
      rw [hcon] at hc
      exact (htype outer).trans hc

/-- Entering namespaces creates those that are missing, the outer one first. -/
theorem withScope (h : Stored table) (tree : SourceTree) (segments : List Segment) {scope : Scope}
    (hs : table.hasNamespace scope.home = true) :
    Stored (Table.withScope tree segments scope table).2 ∧
      (Table.withScope tree segments scope table).2.hasNamespace
        (Table.withScope tree segments scope table).1.home = true := by
  induction segments generalizing scope table with
  | nil => exact ⟨h, hs⟩
  | cons s rest ih =>
    rw [Table.withScope]
    refine ih ((h.withNamespace s.name hs).withFrame tree _ false) ?_
    change (table.withNamespace (.child scope.home s.name)).hasNamespace _ = true
    rw [Table.withNamespace_has, Bool.or_eq_true]
    exact .inr (decide_eq_true rfl)

theorem withType (h : Stored table) (tree : SourceTree) (node : Node) (kind : TypeKind)
    (scope : Scope) {t : TypePath} {parameters : List String}
    (hc : table.has t.container = true) (ha : parameters.length = t.own.arity) :
    Stored (table.withType tree node kind scope t parameters) := by
  have hg := Grows.withType table tree node kind scope t parameters
  have hpaths : (table.withType tree node kind scope t parameters).paths =
      if table.hasType t then table.paths else table.paths ++ [t] := by
    rw [← table.withDeclaration_paths t (node.typeKind?.getD kind) parameters ⟨tree, node⟩,
      Table.paths, Table.withType_eq]
    rfl
  have hhome : ∀ n, (table.withType tree node kind scope t parameters).hasNamespace n =
      table.hasNamespace n := by
    intro n
    rw [Table.hasNamespace, Table.withType_namespaces]
    rfl
  have hkept : ∀ c, table.has c = true →
      (table.withType tree node kind scope t parameters).has c = true := by
    intro c hhas
    cases c with
    | ofNamespace n => exact (hhome n).trans hhas
    | ofType u => exact hg.hasType hhas
  refine ⟨by simpa using h.namespaces, by simpa using h.proper, ?_, ?_, ?_, ?_⟩
  · intro n name
    rw [hhome, hhome]
    exact h.parents n name
  · rw [hpaths]
    split
    · exact h.types
    · rename_i hnew
      refine h.types.append (List.nodup_singleton _) ?_
      rw [List.disjoint_singleton, ← Table.hasType_iff_mem]
      exact hnew
  · intro u hu
    have hmem := (Table.hasType_iff_mem _ u).mp hu
    rw [hpaths] at hmem
    split at hmem
    · exact hkept _ (h.containers u ((Table.hasType_iff_mem _ u).mpr hmem))
    · rcases List.mem_append.mp hmem with hold | hnew
      · exact hkept _ (h.containers u ((Table.hasType_iff_mem _ u).mpr hold))
      · rw [List.mem_singleton.mp hnew]
        exact hkept _ hc
  · intro e he
    rw [Table.withType_eq, Table.withDeclaration] at he
    split at he
    · obtain ⟨old, hold, rfl⟩ := List.mem_map.mp he
      obtain ⟨hlength, hdeclared⟩ := h.entries old hold
      split
      · exact ⟨hlength, by simp⟩
      · exact ⟨hlength, hdeclared⟩
    · rcases List.mem_append.mp he with hold | hnew
      · exact h.entries e hold
      · obtain rfl := List.mem_singleton.mp hnew
        exact ⟨ha, by simp⟩

/-- **The table holds exactly what can be reached.** -/
theorem reaches_iff (h : Stored table) (c : Entity) : Reaches table c ↔ table.has c = true := by
  constructor
  · intro hr
    cases hr with
    | global => rfl
    | @inner n m hn hm =>
      have hmem := List.mem_of_mem_filter hm
      cases m with
      | global => exact absurd hmem h.proper
      | child parent name => exact (table.hasNamespace_child parent name).mpr hmem
    | type hc ht => exact (Table.mem_typesInside.mp ht).1
  · have hhome : ∀ n, table.hasNamespace n = true → Reaches table (.ofNamespace n) := by
      intro n
      induction n with
      | global => exact fun _ => .global
      | child parent name ih =>
        intro hn
        refine .inner (ih (h.parents parent name hn)) (List.mem_filter.mpr ⟨?_, by simp⟩)
        exact (table.hasNamespace_child parent name).mp hn
    have htype : ∀ t, table.hasType t = true → Reaches table (.ofType t) := by
      intro t
      induction t with
      | top home own =>
        intro ht
        exact .type (hhome home (h.containers _ ht)) (Table.mem_typesInside.mpr ⟨ht, rfl⟩)
      | nested outer own ih =>
        intro ht
        exact .type (ih (h.containers _ ht)) (Table.mem_typesInside.mpr ⟨ht, rfl⟩)
    cases c with
    | ofNamespace n => exact hhome n
    | ofType t => exact htype t

end Stored

theorem typeOf_ok {tree : SourceTree} {node : Node} {scope : Scope} {within : Option TypePath}
    {t : TypePath} {parameters : List String}
    (h : typeOf tree node scope within = .ok (t, parameters)) :
    ∃ name, tree.declaredName node = .ok name ∧ tree.typeParameters node = .ok parameters ∧
      t = (Entity.around scope.home within).member ⟨name, parameters.length⟩ := by
  obtain ⟨name, hn, hrest⟩ := except_bind_ok.mp h
  obtain ⟨_, hp, he⟩ := except_bind_ok.mp hrest
  cases he
  exact ⟨name, hn, hp, pathOf_eq _ _ _⟩

/-- Declaring nodes inside what exists keeps every symbol in its container. -/
theorem Declares.stored {tree : SourceTree} {scope : Scope} {within : Option TypePath}
    {nodes : List Node} {table last : Table} (h : Declares tree scope within nodes table last)
    (hs : table.hasNamespace scope.home = true)
    (hw : ∀ t, within = some t → table.hasType t = true) (ht : Stored table) : Stored last := by
  induction h with
  | nil => exact ht
  | @directive scope within node rest table last d hk hd hr ih =>
    have hg := Grows.withDirective table tree node scope d
    exact ih (hg.namespaces _ hs) (fun t he => hg.hasType (hw t he)) (ht.of_eq (by simp) (by simp))
  | @block scope within node rest table mid last segments hk hn hb hr ihb ihr =>
    obtain ⟨hinner, hhome⟩ := ht.withScope tree segments hs
    have hg := (Grows.withScope table tree scope segments).trans hb.grows
    exact ihr (hg.namespaces _ hs) (fun t he => hg.hasType (hw t he))
      (ihb hhome (fun t he => by cases he) hinner)
  | @file scope within node rest table mid last segments hk hn hb hr ihb ihr =>
    obtain ⟨hinner, hhome⟩ := ht.withScope tree segments hs
    have hg := (Grows.withScope table tree scope segments).trans hb.grows
    exact ihr (hb.grows.namespaces _ hhome) (fun t he => hg.hasType (hw t he))
      (ihb hhome (fun t he => by cases he) hinner)
  | @storage scope owner node rest table last fields hk hf hr ih =>
    exact ih hs hw (ht.of_eq rfl rfl)
  | @type scope within node rest table mid last kind t parameters hk htype hb hr ihb ihr =>
    obtain ⟨name, -, -, rfl⟩ := typeOf_ok htype
    have hc : table.has (Entity.around scope.home within) = true := by
      cases within with
      | none => exact hs
      | some outer => exact hw outer rfl
    have hg := Grows.withType table tree node kind scope
      ((Entity.around scope.home within).member ⟨name, parameters.length⟩) parameters
    refine ihr ((hg.trans hb.grows).namespaces _ hs)
      (fun t he => (hg.trans hb.grows).hasType (hw t he)) (ihb (hg.namespaces _ hs) ?_ ?_)
    · rintro t ⟨⟩
      exact Table.withType_hasType _ _ _ _ _ _ _
    · exact ht.withType _ _ _ _ (by rwa [Entity.member_container]) (by rw [Entity.member_own])
  | wrapper hk hb hr ihb ihr =>
    exact ihr (hb.grows.namespaces _ hs) (fun t he => hb.grows.hasType (hw t he)) (ihb hs hw ht)
  | skip hk hskip hr ih => exact ih hs hw ht

theorem DeclaresTrees.stored {trees : List SourceTree} {table last : Table}
    (h : DeclaresTrees trees table last) (ht : Stored table) : Stored last := by
  induction h with
  | nil => exact ht
  | cons hd hr ih =>
    exact ih (Declares.stored hd rfl (fun t he => by cases he) (ht.withFrame _ _ _))

end PrintGen.Symbols
