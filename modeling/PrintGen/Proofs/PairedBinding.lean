import PrintGen.Proofs.Alike
import PrintGen.Proofs.BindingOrder

/-!
# Two tables bound side by side

Every name of a table is bound as if it were the only one. So two tables are bound to the same if
each name of one is bound alone like its counterpart in the other. The bases may be listed in
different orders: only their first fault depends on the order, not whether there is one.
-/

namespace PrintGen.Symbols

open Syntax

section

variable {trees : List SourceTree} {table : Table}

theorem DeclaresTrees.bases_nodup (h : DeclaresTrees trees .empty table) :
    (table.bases.map BaseReference.type).Nodup := by
  obtain ⟨es, rfl⟩ := h.after
  exact Table.empty.after_bases_nodup es List.nodup_nil

/-- The names of a table are bound in the order of declaration, each as if it were the only one. -/
theorem DeclaresTrees.eachAlone (h : DeclaresTrees trees .empty table) :
    EachAlone table table.bases table.attributes
      (bindInOrder table table.bases table.attributes) := by
  obtain ⟨registered, hc⟩ := h.settled settled_empty
  refine (bindInOrder_alone hc.toScoped (.refl _) h.bases_nodup hc.bases fun r hr => ?_).1
  obtain ⟨f, hf, hmem⟩ := List.mem_flatMap.mp hr
  exact hc.attributes f hf r hmem

theorem DeclaresTrees.bound_bases (h : DeclaresTrees trees .empty table) :
    (bindTable table).model.bases =
      (table.bases.map BaseReference.type).zip (table.basesAlone table.bases).1 := by
  rw [bindTable_inOrder]
  exact h.eachAlone.assigned

theorem DeclaresTrees.bound_classes (h : DeclaresTrees trees .empty table)
    (hf : (table.basesAlone table.bases).2 = none) :
    ((bindTable table).model.classes, (bindTable table).fault) =
      table.attributesAlone table.attributes := by
  rw [bindTable_inOrder]
  exact h.eachAlone.classes hf

theorem DeclaresTrees.bound_fault (h : DeclaresTrees trees .empty table) {fault : Fault}
    (hf : (table.basesAlone table.bases).2 = some fault) :
    (bindTable table).model.classes = [] ∧ (bindTable table).fault = some fault := by
  rw [bindTable_inOrder]
  exact Prod.mk.inj (h.eachAlone.stopped fault hf)

/-- Without a fault among the bases, all of them are bound. -/
theorem lookup_basesAlone (hf : (table.basesAlone table.bases).2 = none) (t : TypePath) :
    ((table.bases.map BaseReference.type).zip (table.basesAlone table.bases).1).lookup t =
      (table.base? t).map fun b => (alone (bindType table b.name)).toOption.join := by
  rw [Table.basesAlone, untilFault_results hf, List.zip_map', lookup_map_type, Table.base?]

/-- There is no fault among the bases if none of them is at fault alone. -/
theorem DeclaresTrees.basesAlone_none_iff (h : DeclaresTrees trees .empty table) :
    (table.basesAlone table.bases).2 = none ↔
      ∀ t b, table.base? t = some b → ∃ base, alone (bindType table b.name) = .ok base := by
  rw [Table.basesAlone, untilFault_none_iff]
  constructor
  · exact fun hall t b hb => hall b (List.mem_of_find?_eq_some hb)
  · exact fun hall b hb => hall b.type b ((find?_key_iff h.bases_nodup).mpr ⟨hb, rfl⟩)

end

/-! ## Names that are bound without a fault -/

section

variable {table : Table} {registered : Scope → Prop}

theorem exists_ok_iff {ε α : Type} {x : Except ε α} :
    x.toOption.isSome = true ↔ ∃ a, x = .ok a := by
  cases x <;> simp [Except.toOption]

instance (tree : SourceTree) (node : Node) : Decidable (tree.Reads node) :=
  decidable_of_iff ((tree.nameOf node).toOption.isSome ∧ (tree.text node).toOption.isSome)
    (and_congr exists_ok_iff exists_ok_iff)

/-- The table without the directives that cannot be read. -/
def Table.legible (table : Table) : Table :=
  { table with usings := table.usings.filter fun u => u.tree.Reads u.target }

theorem Table.legible_usingsOf {frame : Frame}
    (h : ∀ u ∈ table.usingsOf frame, u.tree.Reads u.target) :
    table.legible.usingsOf frame = table.usingsOf frame := by
  have hfilter : ∀ p : Using → Bool, (∀ u ∈ table.usings, p u = true → u.tree.Reads u.target) →
      table.legible.usings.filter p = table.usings.filter p := by
    intro p hp
    rw [Table.legible, List.filter_filter]
    refine List.filter_congr fun u hu => ?_
    cases hpu : p u with
    | false => rfl
    | true => simp [hp u hu hpu]
  obtain ⟨hlocal, hglobal⟩ := List.forall_mem_append.mp h
  rw [Table.usingsOf, Table.usingsOf,
    hfilter _ fun u hu hp => hlocal u (List.mem_filter.mpr ⟨hu, hp⟩)]
  cases hfile : frame.isFile with
  | false => rfl
  | true =>
    rw [hfile, if_pos rfl] at hglobal
    rw [if_pos rfl, if_pos rfl, hfilter _ fun u hu hp => hglobal u (List.mem_filter.mpr ⟨hu, hp⟩)]

/-- A name is bound if it can be read and so can all directives that are seen from it. -/
theorem bindType_reads (hc : Scoped table registered) {r : Reference} (hr : registered r.scope)
    (hread : r.site.tree.Reads r.site.node)
    (hu : ∀ frame ∈ r.scope, ∀ u ∈ table.usingsOf frame, u.tree.Reads u.target) :
    ∃ base, alone (bindType table r) = .ok base := by
  have hscoped : Scoped table.legible registered :=
    ⟨hc.outer, hc.mark, hc.file, hc.marks.sublist (List.filter_sublist.map _)⟩
  have hcoherent : Coherent table.legible registered :=
    ⟨hscoped, fun u hmem => of_decide_eq_true (List.mem_filter.mp hmem).2⟩
  have hside : SideBySide table table.legible (fun _ => True) registered registered :=
    ⟨⟨fun _ => rfl, fun _ _ _ => rfl⟩, hc, hscoped⟩
  have hlevels : ∀ scope : Scope,
      (∀ frame ∈ scope, ∀ u ∈ table.usingsOf frame, u.tree.Reads u.target) →
      SameLevels table table.legible scope scope := by
    intro scope hs
    induction scope with
    | nil => exact .nil
    | cons frame outer ih =>
      obtain ⟨hframe, houter⟩ := List.forall_mem_cons.mp hs
      refine .cons rfl rfl ?_ (ih houter)
      rw [Table.legible_usingsOf hframe]
      exact List.forall₂_same.mpr fun u _ => ⟨rfl, rfl, fun _ => rfl⟩
  have hagree := hside.bindType ⟨rfl, hlevels r.scope hu, rfl⟩ hr hr
    fun _ _ _ _ => ⟨trivial, trivial⟩
  refine ⟨table.legible.boundType r, ?_⟩
  rw [← alone_eq_of_agree hagree]
  exact (bindType_gives hcoherent hr hread).resultOf_eq Kept.none

end

/-! ## Counterparts -/

/-- Whether a type is an attribute class depends on its kind and its base, and on those of the types
that are its bases. -/
theorem isAttributeClass_eq {table other : Table} (hk : ∀ t, other.kindOf? t = table.kindOf? t)
    (hn : other.types.length = table.types.length)
    {bases others : List (TypePath × Option TypePath)} (hb : ∀ t, others.lookup t = bases.lookup t) :
    isAttributeClass other others = isAttributeClass table bases := by
  have hlineage : lineageIn other others = lineageIn table bases := by
    funext t
    have hkind := hk t
    rw [Table.kindOf?, Table.kindOf?] at hkind
    rw [lineageIn, lineageIn, hb]
    cases he : table.entryOf? t with
    | none =>
      rw [he] at hkind
      rw [Option.map_eq_none_iff.mp hkind]
    | some e =>
      rw [he] at hkind
      obtain ⟨e', he', hsame⟩ := Option.map_eq_some_iff.mp hkind
      rw [he', Option.map_some, Option.map_some, hsame]
  funext t
  rw [isAttributeClass, isAttributeClass, hlineage, hn]

theorem untilFault_congr {α β γ : Type} {v : α → Except Fault γ} {w : β → Except Fault γ}
    {as : List α} {bs : List β} (h : List.Forall₂ (fun a b => w b = v a) as bs) :
    untilFault w bs = untilFault v as := by
  induction h with
  | nil => rfl
  | cons hv _ ih => rw [untilFault, untilFault, hv, ih]

/-- The first fault in a list is that of its front, if there is one. -/
theorem untilFault_append {α β : Type} (v : α → Except Fault β) (as bs : List α) :
    (untilFault v (as ++ bs)).2 = (untilFault v as).2.or (untilFault v bs).2 := by
  induction as with
  | nil => rfl
  | cons a rest ih =>
    rw [List.cons_append, untilFault, untilFault]
    cases v a with
    | error fault => rfl
    | ok b => exact ih

/-- Two tables with the same types, where every name is bound alone like its counterpart. -/
structure Counterparts (table other : Table) : Prop where
  kinds : ∀ t, other.kindOf? t = table.kindOf? t
  count : other.types.length = table.types.length
  bases : ∀ t, Option.Rel (fun b b' => alone (bindType other b'.name) =
    alone (bindType table b.name)) (table.base? t) (other.base? t)
  attributes : ∀ counts, List.Forall₂ (fun r r' => alone (bindAttribute other counts r') =
    alone (bindAttribute table counts r)) table.attributes other.attributes

namespace Counterparts

variable {trees others : List SourceTree} {table other : Table} (h : Counterparts table other)
  (hd : DeclaresTrees trees .empty table) (hd' : DeclaresTrees others .empty other)

include h

theorem base_ok (t : TypePath) :
    (∀ b, table.base? t = some b → ∃ base, alone (bindType table b.name) = .ok base) ↔
      ∀ b, other.base? t = some b → ∃ base, alone (bindType other b.name) = .ok base := by
  have hrel := h.bases t
  cases hb : table.base? t with
  | none =>
    rw [hb] at hrel
    cases hb' : other.base? t with
    | none => simp
    | some b' =>
      rw [hb'] at hrel
      cases hrel
  | some b =>
    rw [hb] at hrel
    cases hb' : other.base? t with
    | none =>
      rw [hb'] at hrel
      cases hrel
    | some b' =>
      rw [hb'] at hrel
      cases hrel with
      | some he => simp [he]

include hd hd'

/-- Bases are at fault in both tables or in neither. -/
theorem basesAlone_none : (other.basesAlone other.bases).2 = none ↔
    (table.basesAlone table.bases).2 = none := by
  rw [hd.basesAlone_none_iff, hd'.basesAlone_none_iff]
  exact forall_congr' fun t => (h.base_ok t).symm

/-- **If no base is at fault, both tables are bound to the same,** or stop at the same attribute. -/
theorem bindTable (hf : (table.basesAlone table.bases).2 = none) :
    (∀ t, (bindTable other).model.bases.lookup t = (bindTable table).model.bases.lookup t) ∧
      (bindTable other).model.classes = (bindTable table).model.classes ∧
      (bindTable other).fault = (bindTable table).fault := by
  have hf' := (h.basesAlone_none hd hd').mpr hf
  have hlookup : ∀ t, ((other.bases.map BaseReference.type).zip
        (other.basesAlone other.bases).1).lookup t =
      ((table.bases.map BaseReference.type).zip (table.basesAlone table.bases).1).lookup t := by
    intro t
    rw [lookup_basesAlone hf, lookup_basesAlone hf']
    have hrel := h.bases t
    generalize table.base? t = b at hrel ⊢
    generalize other.base? t = b' at hrel ⊢
    cases hrel with
    | none => rfl
    | some he => rw [Option.map_some, Option.map_some, he]
  have hattributes : other.attributesAlone other.attributes =
      table.attributesAlone table.attributes := by
    rw [Table.attributesAlone, Table.attributesAlone,
      isAttributeClass_eq h.kinds h.count hlookup]
    exact untilFault_congr (h.attributes _)
  have hclasses := (hd'.bound_classes hf').trans (hattributes.trans (hd.bound_classes hf).symm)
  rw [hd.bound_bases, hd'.bound_bases]
  exact ⟨hlookup, Prod.mk.inj hclasses⟩

end Counterparts

end PrintGen.Symbols
