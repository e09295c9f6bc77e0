import PrintGen.Proofs.AddedTree
import PrintGen.Proofs.BaseChains

/-!
# Names outside a root namespace

Symbols in a root namespace that a table never mentions change no answer about the table: its bases
are bound as before, the same types are attribute classes, and the attributes of its fields are
bound to the same classes.
-/

namespace PrintGen.Symbols

open Syntax

/-- A table that is complete in itself and knows nothing of a root, and a second one with more
symbols in that root. -/
structure Apart (root : String) (id : TreeId) (table other : Table) : Prop extends
    Beside root id table other where
  stored : Stored table
  outside : Outside root table
  placed : Placed table
  omits : Names (SourceTree.Omits root) table

theorem base_declared {table : Table} {t base : TypePath} {l : Lineage TypePath}
    (hl : lineageIn table table.boundBases t = some l) (hb : l.base = some base) :
    table.hasType base = true := by
  obtain ⟨e, -, rfl⟩ := Option.map_eq_some_iff.mp hl
  have hlookup : table.boundBases.lookup t = some (some base) := Option.join_eq_some_iff.mp hb
  rw [lookup_boundBases] at hlookup
  obtain ⟨b, -, hbound⟩ := Option.map_eq_some_iff.mp hlookup
  exact boundType_some hbound

section

variable {root : String} {id : TreeId} {table other : Table} (h : Apart root id table other)

include h

theorem Apart.entryOf? {t : TypePath} (ht : table.hasType t = true) :
    other.entryOf? t = table.entryOf? t :=
  h.entries t (h.outside.type h.stored ht)

theorem Apart.memberType? {c : Entity} (hc : table.has c = true) (s : Segment) :
    other.memberType? c s = table.memberType? c s := by
  have hhome : (c.member s).home.root? ≠ some root := by
    cases c with
    | ofNamespace n => exact h.outside.namespace hc
    | ofType t =>
      have ht : t.home.root? ≠ some root := h.outside.type h.stored hc
      exact ht
  rw [Table.memberType?_eq, Table.memberType?_eq, Table.type?, Table.type?,
    Table.hasType_eq_isSome, Table.hasType_eq_isSome, h.entries _ hhome]

theorem Apart.descend? {c : Entity} (hc : table.has c = true) {s : Segment} (hs : s.name ≠ root) :
    other.descend? c s = table.descend? c s := by
  cases c with
  | ofNamespace n =>
    have hchild := Namespace.root?_child (h.outside.namespace hc) hs
    rw [Table.descend?, Table.descend?, h.namespaces _ hchild, h.memberType? hc]
  | ofType t => rw [Table.descend?, Table.descend?, h.memberType? hc]

theorem Apart.shares : Shares table other fun s => s.name ≠ root where
  stored := h.stored
  descend _ _ hc hs := h.descend? hc hs
  usings frame hf := by
    rw [usingsOf_eq, usingsOf_eq, h.locals _ (.inl hf), h.globals]
  targets := h.omits.usings

theorem Apart.finds {counts others : TypePath → Bool}
    (hc : ∀ t, table.hasType t = true → others t = counts t) :
    Finds table other counts others fun _ => True where
  member c s hhas _ := by
    rw [h.memberType? hhas]
    cases hm : table.memberType? c s with
    | none => rfl
    | some t => simp only [viable?, Option.filter_some, hc t (memberType?_some hm).1]
  types := hc

/-- **Bases outside the root are bound as before.** -/
theorem Apart.boundType {b : BaseReference} (hb : b ∈ table.bases) :
    other.boundType b.name = table.boundType b.name := by
  refine h.shares.boundType (h.finds fun _ _ => rfl) (h.placed.bases b hb) fun s hs => ?_
  exact ⟨h.omits.bases b hb s hs, trivial, trivial⟩

/-! ## Attribute classes -/

theorem Apart.lookup_bases {t : TypePath} (ht : table.hasType t = true) :
    other.boundBases.lookup t = table.boundBases.lookup t := by
  rw [lookup_boundBases, lookup_boundBases, h.bases t (h.outside.type h.stored ht)]
  cases hb : table.base? t with
  | none => rfl
  | some b => rw [Option.map_some, Option.map_some, h.boundType (List.mem_of_find?_eq_some hb)]

theorem Apart.lineage {t : TypePath} (ht : table.hasType t = true) :
    lineageIn other other.boundBases t = lineageIn table table.boundBases t := by
  rw [lineageIn, lineageIn, h.entryOf? ht, h.lookup_bases ht]

/-- **The same types are attribute classes.** -/
theorem Apart.isAttributeClass {t : TypePath} (ht : table.hasType t = true) :
    Symbols.isAttributeClass other other.boundBases t =
      Symbols.isAttributeClass table table.boundBases t := by
  have hchain : ∀ u l base, table.hasType u = true →
      lineageIn table table.boundBases u = some l → l.base = some base →
      table.hasType base = true :=
    fun u l base _ hl hb => base_declared hl hb
  rw [Bool.eq_iff_iff, isAttributeClass_iff, isAttributeClass_iff]
  refine exists_congr fun n => ?_
  rw [leavesWithin_congr (fun u hu => h.lineage hu) hchain n ht]

/-! ## Fields -/

theorem Apart.boundAttribute {f : FieldEntry} (hf : f ∈ table.fields) {r : Reference}
    (hr : r ∈ f.attributes) :
    other.boundAttribute (Symbols.isAttributeClass other other.boundBases) r =
      table.boundAttribute (Symbols.isAttributeClass table table.boundBases) r := by
  refine h.shares.boundAttribute (h.finds fun _ _ => rfl)
    (h.finds fun t ht => h.isAttributeClass ht) (h.placed.attributes f hf r hr) fun s hs => ?_
  exact ⟨h.omits.attributes f hf r hr s (List.mem_of_mem_dropLast hs), trivial⟩

/-- **The fields outside the root come first, with the same attributes.** -/
theorem Apart.bound_fields : ∃ more, other.bound.fields = table.bound.fields ++ more ∧
    ∀ f ∈ more, f.field.owner.home.root? = some root ∧
      ∀ key, f.field.origin = some key → key.tree = id := by
  obtain ⟨more, hmore, hall⟩ := h.fields
  refine ⟨more.map fun f => ⟨f, f.attributes.map (other.boundAttribute
    (Symbols.isAttributeClass other other.boundBases))⟩, ?_, List.forall_mem_map.mpr hall⟩
  rw [Symbols.bound_fields, Symbols.bound_fields, hmore, List.map_append]
  congr 1
  refine List.map_congr_left fun f hf => ?_
  rw [List.map_congr_left fun r hr => h.boundAttribute hf hr]

end

end PrintGen.Symbols
