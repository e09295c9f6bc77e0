import PrintGen.Proofs.Agreement
import PrintGen.Proofs.AttributeNames
import PrintGen.Proofs.BaseChains
import PrintGen.Proofs.Replay
import PrintGen.Proofs.Stubs

/-!
# Types that are no attribute classes

A type without a base is no attribute class. Where attributes are looked up it does not count: it
neither hides an attribute class further out nor makes a name ambiguous, whatever it is called. So
long as no base, no using directive and no qualifier has its name, all attributes are bound as if it
were not there.
-/

namespace PrintGen.Symbols

open Syntax

/-! ## A table with one more type -/

/-- The other table has one more type, without a base; it says the same of everything else. -/
structure OneMoreType (table other : Table) (t : TypePath) : Prop where
  absent : table.hasType t = false
  entries : ∀ u, u ≠ t → other.entryOf? u = table.entryOf? u
  namespaces : ∀ n, other.hasNamespace n = table.hasNamespace n
  usings : other.usings = table.usings
  bases : other.bases = table.bases
  fields : other.fields = table.fields
  unbased : ∀ b ∈ table.bases, b.type ≠ t

/-- No base, no using directive and no qualifier of an attribute has the name, be it as a verbatim
identifier. -/
structure Unmentioned (name : String) (table : Table) : Prop where
  bases : ∀ b ∈ table.bases, ∀ s ∈ (b.name.site.tree.written b.name.site.node).segments,
    s.name ≠ name ∧ withoutMark s.name ≠ name
  usings : ∀ u ∈ table.usings, ∀ s ∈ (u.tree.written u.target).segments,
    s.name ≠ name ∧ withoutMark s.name ≠ name
  qualifiers : ∀ r ∈ table.attributes,
    ∀ s ∈ (r.site.tree.written r.site.node).segments.dropLast,
      s.name ≠ name ∧ withoutMark s.name ≠ name

theorem written_of_nameOf {tree : SourceTree} {node : Node} {name : QualifiedName}
    (h : tree.nameOf node = .ok name) : tree.written node = name := by
  rw [SourceTree.written, h]

namespace OneMoreType

variable {table other : Table} {t : TypePath} (h : OneMoreType table other t)

include h

theorem hasType {u : TypePath} (hu : u ≠ t) : other.hasType u = table.hasType u := by
  rw [Table.hasType_eq_isSome, Table.hasType_eq_isSome, h.entries u hu]

theorem memberType? {c : Entity} {s : Segment} (hs : c.member s ≠ t) :
    other.memberType? c s = table.memberType? c s := by
  rw [Table.memberType?_eq, Table.memberType?_eq, Table.type?, Table.type?, h.hasType hs]

/-- The new type has no lineage to speak of, and neither had it one before. -/
theorem lineage {bases : List (TypePath × Option TypePath)} (hb : bases.lookup t = none)
    (n : Nat) (u : TypePath) :
    leavesWithin (lineageIn other bases) n u = leavesWithin (lineageIn table bases) n u := by
  induction n generalizing u with
  | zero => rfl
  | succ n ih =>
    rw [Bool.eq_iff_iff, leavesWithin_succ_iff, leavesWithin_succ_iff]
    by_cases hu : u = t
    · subst hu
      have hnone : table.entryOf? u = none := by
        have habsent := h.absent
        rwa [Table.hasType_eq_isSome, Option.isSome_eq_false_iff, Option.isNone_iff_eq_none]
          at habsent
      have hleft : ∀ l, lineageIn other bases u = some l → l.external = false ∧ l.base = none := by
        intro l hl
        obtain ⟨e, _, rfl⟩ := Option.map_eq_some_iff.mp hl
        simp [hb]
      constructor
      · rintro ⟨l, hl, _, hexternal | ⟨base, hbase, _⟩⟩
        · rw [(hleft l hl).1] at hexternal
          cases hexternal
        · rw [(hleft l hl).2] at hbase
          cases hbase
      · rintro ⟨l, hl, _⟩
        rw [lineageIn, hnone] at hl
        cases hl
    · have hsame : lineageIn other bases u = lineageIn table bases u := by
        rw [lineageIn, lineageIn, h.entries u hu]
      simp only [hsame, ih]

/-- **The same types are attribute classes.** -/
theorem isAttributeClass {bases : List (TypePath × Option TypePath)}
    (hb : bases.lookup t = none) :
    isAttributeClass other bases = isAttributeClass table bases := by
  funext u
  rw [Bool.eq_iff_iff, isAttributeClass_iff, isAttributeClass_iff]
  simp only [h.lineage hb]

theorem not_isAttributeClass (bases : List (TypePath × Option TypePath)) :
    Symbols.isAttributeClass table bases t = false := by
  have habsent := h.absent
  rw [Table.hasType_eq_isSome, Option.isSome_eq_false_iff, Option.isNone_iff_eq_none] at habsent
  rw [Symbols.isAttributeClass, leavesWithin, lineageIn, habsent]
  rfl

/-- **Under every name there are the same attribute classes,** also under that of the new type. -/
theorem sameMembers (bases : List (TypePath × Option TypePath)) (s : Segment) :
    SameMembers table other (Symbols.isAttributeClass table bases) s := by
  intro c
  by_cases hc : c.member s = t
  · have hnone : ∀ known : Table,
        viable? (Symbols.isAttributeClass table bases) (known.memberType? c s) = none := by
      intro known
      rw [Table.memberType?_eq, Table.type?, hc]
      split
      · rw [viable?, Option.filter_some, h.not_isAttributeClass]
        rfl
      · rfl
    rw [hnone, hnone]
  · rw [h.memberType? hc]

theorem lookup_bases (bound : List (Option TypePath)) :
    ((table.bases.map BaseReference.type).zip bound).lookup t = none := by
  rw [List.lookup_eq_none_iff]
  rintro ⟨u, base⟩ hmem
  obtain ⟨b, hb, rfl⟩ := List.mem_map.mp (List.of_mem_zip hmem).1
  simpa using (h.unbased b hb).symm

theorem sameSymbols : SameSymbols table other fun s => s.name ≠ t.name where
  namespaces := h.namespaces
  members c s hs := by
    refine h.memberType? fun hc => hs ?_
    rw [← hc, TypePath.name, Entity.member_own]

/-- **Names that do not mention the new type are bound to the same.** -/
theorem mirror {registered : Scope → Prop} (ha : Anchored other [] registered)
    (hn : Unmentioned t.name table) :
    TableMirror table other id id (fun s => s.name ≠ t.name) registered where
  toSameSymbols := h.sameSymbols
  levels := ⟨ha.outer, ha.mark, ha.file, h.usings ▸ ha.marks⟩
  levels_other := ha.toScoped
  usings frame := by rw [List.map_id, Table.usingsOf, Table.usingsOf, h.usings]
  aliases _ := rfl
  statics _ := rfl
  targets u hu := h.sameSymbols.readTarget rfl rfl fun name hname s hs =>
    (hn.usings u hu s (by rwa [written_of_nameOf hname])).1
  bases := by
    rw [h.bases]
    exact (List.map_id _).symm
  attributes := by rw [List.map_id, Table.attributes, Table.attributes, h.fields]
  baseNames b hb := by
    refine ⟨⟨rfl, rfl, rfl⟩, ha.bases b (h.bases ▸ hb), fun name hname s hs => ?_⟩
    exact hn.bases b hb s (by rwa [written_of_nameOf hname])
  attributeNames r hr := by
    obtain ⟨f, hf, hrf⟩ := List.mem_flatMap.mp hr
    refine ⟨⟨rfl, rfl, rfl⟩, ha.attributes f (h.fields ▸ hf) r hrf, fun name hname s hs => ?_⟩
    exact (hn.qualifiers r hr s (by rwa [written_of_nameOf hname])).1
  classes bound := h.isAttributeClass (h.lookup_bases bound)
  classMembers bound s := h.sameMembers _ s

end OneMoreType

/-! ## A tree that declares one plain type -/

/-- All that a tree declares is one type: it has no base and no members, and there is no using
directive. -/
structure DeclaresOnly (tree : SourceTree) (t : TypePath) (own : Table) : Prop where
  declared : declareTree tree .empty = .ok () own
  types : own.paths = [t]
  bases : own.bases = []
  fields : own.fields = []
  usings : own.usings = []

/-- The records of such a tree. -/
structure PlainRecords (t : TypePath) (homes : Namespace → Prop) (es : List Event) : Prop where
  declarations : ∀ d ∈ declarationsIn es, d.path = t ∧ d.base? = none
  homes : ∀ e ∈ es, ∀ n, e.home? = some n → homes n
  usings : es.filterMap Event.using? = []
  fields : es.flatMap Event.fields = []

theorem PlainRecords.declarationsOf {t u : TypePath} {homes : Namespace → Prop} {es : List Event}
    (h : PlainRecords t homes es) (hu : u ≠ t) : declarationsOf es u = [] := by
  rw [Symbols.declarationsOf, List.filter_eq_nil_iff]
  intro d hd hpath
  exact hu ((of_decide_eq_true hpath).symm.trans (h.declarations d hd).1)

theorem DeclaresOnly.replays {tree : SourceTree} {t : TypePath} {own : Table}
    (h : DeclaresOnly tree t own) : ∃ es, Replays tree none (DeclaresTree tree) .empty own es ∧
      PlainRecords t (fun n => own.hasNamespace n = true) es := by
  obtain ⟨es, hes⟩ := (declareTree_iff.mp h.declared).replays
  refine ⟨es, hes, ⟨?_, ?_, ?_, ?_⟩⟩
  · intro d hd
    have htype : own.hasType d.path = true := by
      rw [hes.result, Table.after_hasType]
      exact .inr (List.mem_map_of_mem hd)
    have hpath : d.path = t := by simpa [Table.hasType_iff_mem, h.types] using htype
    have hbase : (declarationsOf es d.path).findSome? Declaration.base? = none := by
      have hown : own.base? d.path = none := by rw [Table.base?, h.bases, List.find?_nil]
      rw [hes.result, Table.after_base?] at hown
      exact (Option.or_eq_none_iff.mp hown).2
    exact ⟨hpath, List.findSome?_eq_none_iff.mp hbase d (mem_declarationsOf.mpr ⟨hd, rfl⟩)⟩
  · intro e he n hn
    rw [hes.result, Table.after_hasNamespace]
    exact .inr ⟨e, he, hn⟩
  · have husings := h.usings
    rw [hes.result, Table.after_usings] at husings
    exact (List.append_eq_nil_iff.mp husings).2
  · have hfields := h.fields
    rw [hes.result, Table.after_fields] at hfields
    exact (List.append_eq_nil_iff.mp hfields).2

/-- With the records of such a tree in between, there is one more type in the end. -/
theorem PlainRecords.oneMoreType {t : TypePath} {homes : Namespace → Prop} {es fs : List Event}
    {start : Table} (h : PlainRecords t homes es)
    (habsent : (start.after fs).hasType t = false) (hb : ∀ b ∈ (start.after fs).bases, b.type ≠ t)
    (hhomes : ∀ n, homes n → (start.after fs).hasNamespace n = true) :
    OneMoreType (start.after fs) ((start.after es).after fs) t := by
  refine ⟨habsent, ?_, ?_, ?_, ?_, ?_, hb⟩
  · intro u hu
    rw [Table.after_entryOf?, Table.after_entryOf?, h.declarationsOf hu, Table.after_entryOf?]
    rfl
  · intro n
    rw [Bool.eq_iff_iff, Table.after_hasNamespace, Table.after_hasNamespace]
    constructor
    · rintro ((hold | ⟨e, he, hn⟩) | hnew)
      · exact (Table.after_hasNamespace _ _ _).mpr (.inl hold)
      · exact hhomes n (h.homes e he n hn)
      · exact (Table.after_hasNamespace _ _ _).mpr (.inr hnew)
    · intro hn
      rcases (Table.after_hasNamespace _ _ _).mp hn with hold | hnew
      · exact .inl (.inl hold)
      · exact .inr hnew
  · rw [Table.after_usings, Table.after_usings, h.usings, List.append_nil, ← Table.after_usings]
  · exact Table.after_bases_congr _ _
      (Table.after_bases_of_none _ _ fun d hd => (h.declarations d hd).2)
  · rw [Table.after_fields, Table.after_fields, h.fields, List.append_nil, ← Table.after_fields]

theorem DeclaresTrees.basesDeclared {trees : List SourceTree} {table : Table}
    (h : DeclaresTrees trees .empty table) : ∀ b ∈ table.bases, table.hasType b.type = true := by
  obtain ⟨es, rfl⟩ := h.after
  intro b hb
  have hsome : ((Table.empty.after es).base? b.type).isSome = true :=
    List.find?_isSome.mpr ⟨b, hb, by simp⟩
  obtain ⟨first, hfirst⟩ := Option.isSome_iff_exists.mp hsome
  rw [Table.after_base?] at hfirst
  obtain ⟨d, hd, _⟩ := List.exists_of_findSome?_eq_some hfirst
  obtain ⟨hmem, hpath⟩ := mem_declarationsOf.mp hd
  rw [Table.after_hasType, ← hpath]
  exact .inr (List.mem_map_of_mem hmem)

/-- **Wherever such a tree is put among others, there is one more type.** -/
theorem DeclaresOnly.inserted {before after : List SourceTree} {extra : SourceTree}
    {t : TypePath} {own table : Table} (h : DeclaresOnly extra t own)
    (hd : DeclaresTrees (before ++ after) .empty table)
    (hids : ∀ tree ∈ before ++ after, tree.id ≠ extra.id) (habsent : table.hasType t = false)
    (hhomes : ∀ n ∈ own.namespaces, table.hasNamespace n = true) :
    ∃ other, DeclaresTrees (before ++ extra :: after) .empty other ∧
      OneMoreType table other t := by
  obtain ⟨hbefore, hafter⟩ := List.forall_mem_append.mp hids
  obtain ⟨mid, hfirst, hlater⟩ := hd.split
  obtain ⟨es, hes, hplain⟩ := h.replays
  obtain ⟨fs, hfs, hagain⟩ := hlater.again
  have hmid : mid.hasType t = false := by
    rw [← Bool.not_eq_true] at habsent ⊢
    exact fun ht => habsent (hlater.grows.hasType ht)
  -- The tree makes its records although others came before it.
  have hfresh := hfirst.fresh (fresh_empty extra) hbefore
  have hextra : DeclaresTree extra mid (mid.after es) := by
    refine hes.again mid ⟨⟨hfresh.1.symm, hfresh.2.symm⟩, ?_, fun u hu => by cases hu⟩
    intro d hmem
    rw [(hplain.declarations d hmem).1, Table.kindOf?, Table.kindOf?]
    rw [Table.hasType_eq_isSome, Option.isSome_eq_false_iff, Option.isNone_iff_eq_none] at hmid
    rw [hmid]
    rfl
  -- The trees after it make theirs although it came before them.
  have hrest : DeclaresTrees after (mid.after es) ((mid.after es).after fs) := by
    refine hagain _ (fun tree hmem => SameRanks.sent (hafter tree hmem).symm hes.sent mid) ?_
    intro d hmem
    have hne : d.path ≠ t := by
      rintro rfl
      rw [hfs, ← Bool.not_eq_true, Table.after_hasType] at habsent
      exact habsent (.inr (List.mem_map_of_mem hmem))
    rw [Table.after_kindOf?, hplain.declarationsOf hne, List.head?_nil, Option.map_none,
      Option.or_none]
  refine ⟨_, hfirst.append (.cons hextra hrest), ?_⟩
  have hbased : ∀ b ∈ table.bases, b.type ≠ t := by
    rintro b hb rfl
    rw [hd.basesDeclared b hb] at habsent
    cases habsent
  rw [hfs] at habsent hbased hhomes ⊢
  refine hplain.oneMoreType habsent hbased fun n hn => ?_
  rcases (Table.hasNamespace_iff own n).mp hn with rfl | hmem
  · rfl
  · exact hhomes n hmem

/-- **Types that are no attribute classes do not get in the way of attributes.** A tree with a plain
type is put anywhere among others, in the global namespace or in one that exists. If no base, no
using directive and no qualifier has the name of the type, all fields have the same attributes,
even where an attribute is called like the type. -/
theorem plain_type_keeps_attributes {before after : List SourceTree} {extra : SourceTree}
    {home : Namespace} {name : String} {own table : Table}
    (hextra : DeclaresOnly extra (.top home ⟨name, 0⟩) own)
    (hd : declareTrees (before ++ after) .empty = .ok () table)
    (hids : ∀ tree ∈ before ++ after, tree.id ≠ extra.id)
    (habsent : table.hasType (.top home ⟨name, 0⟩) = false)
    (hhomes : ∀ n ∈ own.namespaces, table.hasNamespace n = true)
    (hnames : Unmentioned name table) :
    (build (before ++ extra :: after)).model.fields = (build (before ++ after)).model.fields ∧
      (build (before ++ extra :: after)).fault = (build (before ++ after)).fault := by
  obtain ⟨other, hother, hmore⟩ := hextra.inserted (declareTrees_iff.mp hd) hids habsent hhomes
  obtain ⟨registered, ha⟩ := hother.settled settled_empty
  obtain ⟨-, hclasses, hfault⟩ := (hmore.mirror ha hnames).bindTable
  obtain ⟨hbuilt, hmodel⟩ := build_declared (declareTrees_iff.mp hd)
  obtain ⟨hbuilt', hmodel'⟩ := build_declared hother
  constructor
  · rw [hmodel, hmodel', Model.fields, Model.fields, bindTable_table, bindTable_table, hclasses,
      hmore.fields]
  · rw [hbuilt, hbuilt', hfault]

namespace Sample

open Marker (node identifier)

/-- An enumeration that is called like the marker and is closer to a marked field. -/
def homonym : SourceTree :=
  ⟨.source 2, "homonym.cs", "namespace N \x7b enum Printable \x7b \x7d \x7d".toList, false,
    node (.other "compilation_unit") 0 34 none [
      node .namespaceDeclaration 0 34 none [
        identifier 10 11 (some .name),
        node .declarationList 12 34 (some (.other "body")) [
          node (.typeDeclaration .enumType) 14 32 none [
            identifier 19 28 (some .name),
            node .enumMemberList 29 32 (some (.other "body")) []]]]]⟩

theorem homonym_declaresOnly : ∃ own,
    DeclaresOnly homonym (.top (.child .global "N") ⟨"Printable", 0⟩) own ∧
      own.namespaces = [.child .global "N"] := by
  have hw : ∀ tree ∈ [homonym], tree.WellFormed := by decide +kernel
  obtain ⟨own, hd⟩ := declaresTrees_total hw .empty
  have hown : own = declaredTable [homonym] := by rw [declaredTable, declareTrees_iff.mpr hd]
  cases hd with
  | cons ht hnil =>
    cases hnil
    refine ⟨own, ⟨declareTree_iff.mpr ht, ?_, ?_, ?_, ?_⟩, ?_⟩
    · rw [hown]
      decide +kernel
    · rw [hown]
      exact List.eq_nil_of_length_eq_zero (by decide +kernel)
    · rw [hown]
      exact List.eq_nil_of_length_eq_zero (by decide +kernel)
    · rw [hown]
      exact List.eq_nil_of_length_eq_zero (by decide +kernel)
    · rw [hown]
      decide +kernel

end Sample

theorem plain_type_of_sample :
    (build ([Sample.first] ++ Sample.homonym :: [Marker.tree])).model.fields =
        (build ([Sample.first] ++ [Marker.tree])).model.fields ∧
      (build ([Sample.first] ++ Sample.homonym :: [Marker.tree])).model.table.hasType
        (.top (.child .global "N") ⟨"Printable", 0⟩) = true ∧
      (build ([Sample.first] ++ Sample.homonym :: [Marker.tree])).model.fields.map
        BoundField.classes = [[some Marker.type], [some Marker.type], []] := by
  obtain ⟨own, hextra, hnamespaces⟩ := Sample.homonym_declaresOnly
  have hw : ∀ tree ∈ [Sample.first] ++ [Marker.tree], tree.WellFormed := by
    rw [List.forall_mem_append, List.forall_mem_singleton, List.forall_mem_singleton]
    exact ⟨by decide +kernel, Marker.wellFormed⟩
  obtain ⟨table, hd⟩ := declaresTrees_total hw .empty
  have hrun := declareTrees_iff.mpr hd
  have htable : table = declaredTable ([Sample.first] ++ [Marker.tree]) := by
    rw [declaredTable, hrun]
  have hfacts : table.hasType (.top (.child .global "N") ⟨"Printable", 0⟩) = false ∧
      table.hasNamespace (.child .global "N") = true ∧
      (∀ b ∈ table.bases, ∀ s ∈ (b.name.site.tree.written b.name.site.node).segments,
        s.name ≠ "Printable" ∧ withoutMark s.name ≠ "Printable") ∧
      (∀ u ∈ table.usings, ∀ s ∈ (u.tree.written u.target).segments,
        s.name ≠ "Printable" ∧ withoutMark s.name ≠ "Printable") ∧
      ∀ r ∈ table.attributes, ∀ s ∈ (r.site.tree.written r.site.node).segments.dropLast,
        s.name ≠ "Printable" ∧ withoutMark s.name ≠ "Printable" := by
    rw [htable, Marker.tree_parts]
    decide +kernel
  obtain ⟨habsent, hhome, hbases, husings, hqualifiers⟩ := hfacts
  have hkept := plain_type_keeps_attributes hextra hrun (by decide +kernel) habsent
    (by rw [hnamespaces, List.forall_mem_singleton]; exact hhome) ⟨hbases, husings, hqualifiers⟩
  refine ⟨hkept.1, ?_⟩
  rw [build_table, Marker.tree_parts]
  decide +kernel

end PrintGen.Symbols
