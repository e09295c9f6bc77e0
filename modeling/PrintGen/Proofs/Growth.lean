import PrintGen.Proofs.FieldOrder

/-!
# The table only grows

Nothing that was declared is ever lost: a type keeps its kind, a namespace stays, and every field
belongs to a declared type.
-/

namespace PrintGen.Symbols

open Syntax

namespace Table

theorem hasType_eq_isSome (table : Table) (t : TypePath) :
    table.hasType t = (table.entryOf? t).isSome := by
  rw [Bool.eq_iff_iff, entryOf?, List.find?_isSome, hasType, List.any_eq_true]

theorem hasType_iff (table : Table) (t : TypePath) :
    table.hasType t = true ↔ ∃ kind, table.kindOf? t = some kind := by
  rw [hasType_eq_isSome, kindOf?]
  cases table.entryOf? t <;> simp

theorem kindOf?_of_types {table other : Table} (h : table.types = other.types) (t : TypePath) :
    table.kindOf? t = other.kindOf? t := by
  rw [kindOf?, entryOf?, h]
  rfl

/-- The paths of the types, in order of declaration. -/
def paths (table : Table) : List TypePath :=
  table.types.map TypeEntry.path

theorem hasType_iff_mem (table : Table) (t : TypePath) :
    table.hasType t = true ↔ t ∈ table.paths := by
  simp [hasType, paths]

theorem withDeclaration_paths (table : Table) (t : TypePath) (kind : TypeKind)
    (parameters : List String) (site : Site) :
    (table.withDeclaration t kind parameters site).paths =
      if table.hasType t then table.paths else table.paths ++ [t] := by
  rw [withDeclaration]
  split
  · simp only [paths, List.map_map]
    apply List.map_congr_left
    intro e _
    simp only [Function.comp_apply]
    split <;> rfl
  · simp [paths]

theorem exists_entry {table : Table} {t : TypePath} (h : table.hasType t = true) :
    ∃ e ∈ table.types, e.path = t := by
  obtain ⟨e, he, hpath⟩ := List.any_eq_true.mp h
  exact ⟨e, he, of_decide_eq_true hpath⟩

theorem entryOf?_path {table : Table} {t : TypePath} {e : TypeEntry}
    (h : table.entryOf? t = some e) : e.path = t := by
  simpa using List.find?_some h

/-- A type that is known already gets one more site, and nothing else changes. -/
theorem withDeclaration_entryOf? (table : Table) (t u : TypePath) (kind : TypeKind)
    (parameters : List String) (site : Site) :
    (table.withDeclaration t kind parameters site).entryOf? u =
      if u = t then
        some (match table.entryOf? t with
          | some e => { e with declarations := e.declarations ++ [site] }
          | none => ⟨t, kind, parameters, [site]⟩)
      else table.entryOf? u := by
  rw [withDeclaration, hasType_eq_isSome]
  cases ht : table.entryOf? t with
  | some e =>
    have hpath : ((fun e : TypeEntry => decide (e.path = u)) ∘ fun e : TypeEntry =>
        if e.path = t then { e with declarations := e.declarations ++ [site] } else e) =
        fun e => decide (e.path = u) := by
      funext e
      simp only [Function.comp_apply]
      split <;> rfl
    rw [if_pos Option.isSome_some, entryOf?, List.find?_map, hpath]
    by_cases hu : u = t
    · rw [if_pos hu, hu]
      change (table.entryOf? t).map _ = _
      rw [ht, Option.map_some, if_pos (entryOf?_path ht)]
    · rw [if_neg hu]
      change (table.entryOf? u).map _ = _
      cases hk : table.entryOf? u with
      | none => rfl
      | some e' => rw [Option.map_some, if_neg (by rw [entryOf?_path hk]; exact hu)]
  | none =>
    rw [if_neg (by simp), entryOf?, List.find?_append]
    by_cases hu : u = t
    · rw [if_pos hu, hu]
      change (table.entryOf? t).or _ = _
      simp [ht]
    · have hne : ¬ t = u := fun he => hu he.symm
      rw [if_neg hu]
      simp [hne, entryOf?]

/-- A declaration of a type that is known already changes no kind. -/
theorem withDeclaration_kindOf? (table : Table) (t u : TypePath) (kind : TypeKind)
    (parameters : List String) (site : Site) :
    (table.withDeclaration t kind parameters site).kindOf? u =
      if u = t then some ((table.kindOf? t).getD kind) else table.kindOf? u := by
  rw [kindOf?, withDeclaration_entryOf?]
  split
  · rw [kindOf?]
    cases table.entryOf? t <;> rfl
  · rfl

theorem withType_kindOf? (table : Table) (tree : SourceTree) (node : Node) (type : TypeKind)
    (scope : Scope) (t u : TypePath) (parameters : List String) :
    (table.withType tree node type scope t parameters).kindOf? u =
      if u = t then some ((table.kindOf? t).getD (node.typeKind?.getD type))
      else table.kindOf? u := by
  rw [← withDeclaration_kindOf?]
  apply kindOf?_of_types
  rw [withType_eq]

theorem withType_hasType (table : Table) (tree : SourceTree) (node : Node) (type : TypeKind)
    (scope : Scope) (t : TypePath) (parameters : List String) :
    (table.withType tree node type scope t parameters).hasType t = true := by
  rw [hasType_iff]
  exact ⟨_, by rw [withType_kindOf?, if_pos rfl]⟩

theorem withNamespace_has (table : Table) (n m : Namespace) :
    (table.withNamespace n).hasNamespace m = (table.hasNamespace m || decide (m = n)) := by
  rw [withNamespace]
  split
  · rename_i h
    by_cases hm : m = n
    · simp [hm, h]
    · simp [hm]
  · simp only [hasNamespace, List.contains_eq_mem, List.mem_append, List.mem_singleton,
      Bool.decide_or, Bool.or_assoc]

end Table

/-- Everything declared in one table is declared in the other, and types have the same kinds. -/
structure Grows (table last : Table) : Prop where
  kinds : ∀ t kind, table.kindOf? t = some kind → last.kindOf? t = some kind
  namespaces : ∀ n, table.hasNamespace n = true → last.hasNamespace n = true

namespace Grows

theorem refl (table : Table) : Grows table table :=
  ⟨fun _ _ h => h, fun _ h => h⟩

theorem trans {table mid last : Table} (h : Grows table mid) (hl : Grows mid last) :
    Grows table last :=
  ⟨fun t kind hk => hl.kinds t kind (h.kinds t kind hk),
    fun n hn => hl.namespaces n (h.namespaces n hn)⟩

theorem hasType {table last : Table} (h : Grows table last) {t : TypePath}
    (ht : table.hasType t = true) : last.hasType t = true := by
  rw [Table.hasType_iff] at ht ⊢
  obtain ⟨kind, hk⟩ := ht
  exact ⟨kind, h.kinds t kind hk⟩

theorem of_eq {table last : Table} (ht : table.types = last.types)
    (hn : table.namespaces = last.namespaces) : Grows table last := by
  constructor
  · intro t kind hk
    rwa [← Table.kindOf?_of_types ht t]
  · intro n h
    rw [Table.hasNamespace] at h ⊢
    rwa [← hn]

theorem withDirective (table : Table) (tree : SourceTree) (node : Node) (scope : Scope)
    (d : Option (Option String × Node)) : Grows table (table.withDirective tree node scope d) :=
  of_eq (by simp) (by simp)

theorem withFields (table : Table) (fields : List FieldEntry) :
    Grows table (table.withFields fields) :=
  of_eq rfl rfl

theorem withFrame (table : Table) (tree : SourceTree) (home : Namespace) (isFile : Bool) :
    Grows table (table.withFrame tree home isFile).2 :=
  of_eq rfl rfl

theorem withScope (table : Table) (tree : SourceTree) (scope : Scope) (segments : List Segment) :
    Grows table (Table.withScope tree segments scope table).2 := by
  induction segments generalizing scope table with
  | nil => exact refl table
  | cons s rest ih =>
    refine trans ?_ (ih _ _)
    constructor
    · intro t kind hk
      rw [← hk]
      apply Table.kindOf?_of_types
      rw [Table.withNamespace_eq]
      rfl
    · intro n hn
      change (table.withNamespace _).hasNamespace n = true
      rw [Table.withNamespace_has, hn, Bool.true_or]

theorem withType (table : Table) (tree : SourceTree) (node : Node) (type : TypeKind)
    (scope : Scope) (t : TypePath) (parameters : List String) :
    Grows table (table.withType tree node type scope t parameters) := by
  constructor
  · intro u kind hk
    rw [Table.withType_kindOf?]
    split
    · rename_i hu
      rw [← hu, hk]
      rfl
    · exact hk
  · intro n hn
    rw [Table.hasNamespace, Table.withType_namespaces]
    exact hn

end Grows

/-- Declaring nodes loses nothing. -/
theorem Declares.grows {tree : SourceTree} {scope : Scope} {within : Option TypePath}
    {nodes : List Node} {table last : Table} (h : Declares tree scope within nodes table last) :
    Grows table last := by
  induction h with
  | nil => exact .refl _
  | directive hk hd hr ih => exact (Grows.withDirective _ _ _ _ _).trans ih
  | block hk hn hb hr ihb ihr
  | file hk hn hb hr ihb ihr => exact (Grows.withScope _ _ _ _).trans (ihb.trans ihr)
  | storage hk hf hr ih => exact (Grows.withFields _ _).trans ih
  | type hk ht hb hr ihb ihr => exact (Grows.withType _ _ _ _ _ _ _).trans (ihb.trans ihr)
  | wrapper hk hb hr ihb ihr => exact ihb.trans ihr
  | skip hk hs hr ih => exact ih

theorem DeclaresTrees.grows {trees : List SourceTree} {table last : Table}
    (h : DeclaresTrees trees table last) : Grows table last := by
  induction h with
  | nil => exact .refl _
  | cons ht hr ih =>
    exact (Grows.withFrame _ _ _ _).trans ((Declares.grows ht).trans ih)

/-- Every field of a table belongs to a declared type. -/
def OwnersDeclared (table : Table) : Prop :=
  ∀ f ∈ table.fields, table.hasType f.owner = true

theorem OwnersDeclared.of_grows {table last : Table} (h : OwnersDeclared table)
    (hg : Grows table last) (hf : last.fields = table.fields) : OwnersDeclared last := by
  intro f hmem
  rw [hf] at hmem
  exact hg.hasType (h f hmem)

theorem Declares.ownersDeclared {tree : SourceTree} {scope : Scope} {within : Option TypePath}
    {nodes : List Node} {table last : Table} (h : Declares tree scope within nodes table last)
    (hw : ∀ t, within = some t → table.hasType t = true) (ho : OwnersDeclared table) :
    OwnersDeclared last := by
  induction h with
  | nil => exact ho
  | @directive scope within node rest table last d hk hd hr ih =>
    have hg := Grows.withDirective table tree node scope d
    exact ih (fun t ht => hg.hasType (hw t ht)) (ho.of_grows hg (by simp))
  | @block scope within node rest table mid last segments hk hn hb hr ihb ihr
  | @file scope within node rest table mid last segments hk hn hb hr ihb ihr =>
    have hg := Grows.withScope table tree scope segments
    have hmid := ihb (fun t ht => by cases ht) (ho.of_grows hg (by simp))
    exact ihr (fun t ht => (hg.trans hb.grows).hasType (hw t ht)) hmid
  | @storage scope owner node rest table last fields hk hf hr ih =>
    refine ih hw ?_
    intro f hmem
    rcases List.mem_append.mp hmem with hold | hnew
    · exact ho f hold
    · rw [((storedFields_spec hf).1 f hnew).2]
      exact hw owner rfl
  | @type scope within node rest table mid last kind t parameters hk ht hb hr ihb ihr =>
    have hg := Grows.withType table tree node kind scope t parameters
    have hmid := ihb (fun u hu => by cases hu; exact Table.withType_hasType _ _ _ _ _ _ _)
      (ho.of_grows hg (by simp))
    exact ihr (fun u hu => (hg.trans hb.grows).hasType (hw u hu)) hmid
  | wrapper hk hb hr ihb ihr =>
    exact ihr (fun t ht => hb.grows.hasType (hw t ht)) (ihb hw ho)
  | skip hk hs hr ih => exact ih hw ho

theorem DeclaresTrees.ownersDeclared {trees : List SourceTree} {table last : Table}
    (h : DeclaresTrees trees table last) (ho : OwnersDeclared table) : OwnersDeclared last := by
  induction h with
  | nil => exact ho
  | cons ht hr ih => exact ih (Declares.ownersDeclared ht (fun t ht => by cases ht) ho)

theorem ownersDeclared_empty : OwnersDeclared .empty := by
  simp [OwnersDeclared, Table.empty]

end PrintGen.Symbols
