import PrintGen.Proofs.KeptDeclarations
import PrintGen.Proofs.MarkerRecords
import PrintGen.Proofs.PairedBinding
import PrintGen.Proofs.ViewedPass

/-!
# The marker source as an input

The marker source may be among the trees of a compilation, next to the one that every pass brings
along. The copy adds levels and a directive of its own and one more declaration of the marker class.
None of that can be seen from the other trees, and the marker class is bound like before: the only
base that may come from the copy stands in levels like those of the marker source.
-/

namespace PrintGen.Marker

open Syntax Symbols

/-- What a copy records after a table, the class last. -/
def copyRecords (copy : SourceTree) (table : Table) (d : Declaration) : List Event :=
  copyOpening copy table ++ [.declaration d]

/-- A table without and with the records of a copy, both followed by the same records and by those
of the marker source. The records in between declare other types and come from other trees. -/
structure Fed (copy : SourceTree) (start : Table) (es : List Event) (d own own' : Declaration) :
    Prop where
  isCopy : IsCopy copy
  id : copy.id ≠ .marker
  copied : IsCopyClass copy start d
  own : IsCopyClass tree (start.after es) own
  own' : IsCopyClass tree ((start.after (copyRecords copy start d)).after es) own'
  later : ∀ e ∈ declarationsIn es, e.path ≠ type
  sent : ∀ e ∈ es, ∃ other : SourceTree, other.id ≠ copy.id ∧ other.id ≠ .marker ∧ e.From other
  foreign : ∀ mark ∈ start.frames, mark.tree ≠ .marker
  declared : ∀ e ∈ start.types, e.declarations ≠ []
  before : Settled start []
  known : Settled (start.after es) []

theorem import_text : tree.text (identifier 6 12 none) = .ok "System" := by
  have hslice : ∀ rest, Text.slice? ("using System;\n\nnamespace PrintableFields\n\x7b\n".toList ++
      rest) 6 12 = some "System".toList := fun rest => rfl
  apply text_of_slice
  rewrite [tree_content, source_toList]
  exact hslice _

theorem identifier_reads {start stop : Nat} {label : Option Label} {name : String}
    (h : tree.text (identifier start stop label) = .ok name) :
    tree.Reads (identifier start stop label) := by
  refine ⟨⟨⟨none, [⟨name, 0⟩]⟩, ?_⟩, name, h⟩
  change (do
    let name ← tree.text (identifier start stop label)
    return (⟨none, [⟨name, 0⟩]⟩ : QualifiedName)) = _
  rw [h]
  rfl

/-- All texts of a copy are those of the marker source. -/
theorem IsCopy.text_eq {copy : SourceTree} (h : IsCopy copy) (node : Node) :
    copy.text node = tree.text node := by
  rw [SourceTree.text, SourceTree.text, h.content, tree_content]

theorem IsCopy.nameOf_identifier {copy : SourceTree} (h : IsCopy copy) (start stop : Nat)
    (label : Option Label) : copy.nameOf (identifier start stop label) =
      tree.nameOf (identifier start stop label) := by
  change (do
    let name ← copy.text (identifier start stop label)
    return (⟨none, [⟨name, 0⟩]⟩ : QualifiedName)) = (do
    let name ← tree.text (identifier start stop label)
    return (⟨none, [⟨name, 0⟩]⟩ : QualifiedName))
  rw [h.text_eq]

section

variable (copy : SourceTree) (start : Table) (es : List Event) (d own own' : Declaration)

/-- The table without the copy. -/
def without : Table :=
  (start.after es).after (copyRecords tree (start.after es) own)

/-- The table with the copy. -/
def fed : Table :=
  ((start.after (copyRecords copy start d)).after es).after
    (copyRecords tree ((start.after (copyRecords copy start d)).after es) own')

/-- The base of the marker class is bound if it is looked up at all, or nothing is recorded between
the copy and the marker source. -/
def Unhindered : Prop :=
  copyBase tree (start.after es) ∈ (without start es own).bases → es = [] ∨
    ∃ base, alone (bindType (without start es own) (copyBase tree (start.after es)).name) = .ok base

variable (table : Table)

theorem copyRecords_declarations : declarationsIn (copyRecords copy table d) = [d] :=
  rfl

theorem copyRecords_fields : (copyRecords copy table d).flatMap Event.fields = [] :=
  rfl

theorem copyRecords_usings :
    (copyRecords copy table d).filterMap Event.using? = [copyDirective copy table] :=
  rfl

theorem copyRecords_locals (mark : Mark) :
    ((copyRecords copy table d).filterMap Event.using?).filter (fun u => u.frame = some mark) =
      if (copyFile copy table).mark = mark then [copyDirective copy table] else [] := by
  rw [copyRecords_usings, List.filter_singleton]
  simp [copyDirective]

theorem copyRecords_globals :
    ((copyRecords copy table d).filterMap Event.using?).filter (fun u => u.frame = none) = [] :=
  rfl

theorem copyRecords_bases {copy : SourceTree} {table : Table} {d : Declaration}
    (h : IsCopyClass copy table d) : (table.after (copyRecords copy table d)).bases =
      table.bases ++ if (table.base? type).isSome then [] else [copyBase copy table] := by
  have hopening : (table.after (copyOpening copy table)).bases = table.bases :=
    table.after_bases_of_none _ (List.forall_mem_nil _)
  have hknown : (table.bases.any fun b => b.type = type) = (table.base? type).isSome := by
    rw [Bool.eq_iff_iff, List.any_eq_true, Table.base?, List.find?_isSome]
  rw [copyRecords, Table.after_append]
  change ((table.after (copyOpening copy table)).record (.declaration d)).bases = _
  rw [Table.record_bases, hopening, h.path, h.base, hknown, Option.toList_some]

/-- The second level of a copy has the next rank. -/
theorem copyHome_rank :
    (copyHome copy table).mark.rank = (copyFile copy table).mark.rank + 1 := by
  simp [copyHome, copyFile, Table.rankIn]

theorem copyHome_mark : (copyFile copy table).mark ≠ (copyHome copy table).mark := by
  intro heq
  have hrank := copyHome_rank copy table
  rw [← heq] at hrank
  omega

theorem copyRecords_home (n : Namespace) :
    (∃ e ∈ copyRecords copy table d, e.home? = some n) ↔ n = home := by
  simp [copyRecords, copyOpening, Event.home?, eq_comm]

theorem declarationsOf_copyRecords (t : TypePath) :
    declarationsOf (copyRecords copy table d) t = if d.path = t then [d] else [] := by
  rw [declarationsOf, copyRecords_declarations, List.filter_singleton]
  simp

theorem without_globals : (without start es own).globals = (start.after es).globals := by
  simp only [without, Table.after_globals, copyRecords_globals, List.append_nil]

theorem fed_globals : (fed copy start es d own').globals = (start.after es).globals := by
  simp only [fed, Table.after_globals, copyRecords_globals, List.append_nil]

theorem without_fields : (without start es own).fields = (start.after es).fields := by
  simp only [without, Table.after_fields, copyRecords_fields, List.append_nil]

theorem fed_fields : (fed copy start es d own').fields = (start.after es).fields := by
  simp only [fed, Table.after_fields, copyRecords_fields, List.append_nil]

end

namespace Fed

variable {copy : SourceTree} {start : Table} {es : List Event} {d own own' : Declaration}
  (h : Fed copy start es d own own')

include h

/-! ## Symbols -/

theorem later_none {t : TypePath} (ht : t = type) : declarationsOf es t = [] := by
  rw [declarationsOf, List.filter_eq_nil_iff]
  intro e he hpath
  exact h.later e he ((of_decide_eq_true hpath).trans ht)

/-- What both tables know of a type: the same, apart from the sites of the marker class. -/
theorem entries (t : TypePath) : Option.Rel (fun e e' : TypeEntry => e'.kind = e.kind ∧
    e'.parameters = e.parameters ∧ (t ≠ type ∨ (start.after es).hasType t = true →
      e'.declarations.head? = e.declarations.head?))
    ((without start es own).entryOf? t) ((fed copy start es d own').entryOf? t) := by
  simp only [fed, without, Table.after_entryOf?, declarationsOf_copyRecords, h.copied.path,
    h.own.path, h.own'.path]
  by_cases ht : type = t
  · subst ht
    simp only [if_true, h.later_none rfl, List.foldl_cons, List.foldl_nil]
    have hknown : (start.after es).hasType type = (start.entryOf? type).isSome := by
      rw [Table.hasType_eq_isSome, Table.after_entryOf?, h.later_none rfl]
      rfl
    rw [hknown]
    cases he : start.entryOf? type with
    | none =>
      refine .some ⟨?_, ?_, by simp⟩
      · exact h.copied.kind.trans h.own.kind.symm
      · exact h.copied.parameters.trans h.own.parameters.symm
    | some e =>
      have hne := h.declared e (List.mem_of_find?_eq_some he)
      refine .some ⟨rfl, rfl, fun _ => ?_⟩
      change ((e.declarations ++ [d.site]) ++ [own'.site]).head? =
        (e.declarations ++ [own.site]).head?
      rw [List.append_assoc, List.head?_append_of_ne_nil _ hne, List.head?_append_of_ne_nil _ hne]
  · simp only [if_neg ht, List.foldl_nil]
    cases (declarationsOf es t).foldl Declaration.joined (start.entryOf? t) with
    | none => exact .none
    | some e => exact .some ⟨rfl, rfl, fun _ => rfl⟩

theorem kinds (t : TypePath) :
    (fed copy start es d own').kindOf? t = (without start es own).kindOf? t := by
  have hrel := h.entries t
  rw [Table.kindOf?, Table.kindOf?]
  generalize (without start es own).entryOf? t = e at hrel ⊢
  generalize (fed copy start es d own').entryOf? t = e' at hrel ⊢
  cases hrel with
  | none => rfl
  | some hsame => exact congrArg some hsame.1

theorem hasType (t : TypePath) :
    (fed copy start es d own').hasType t = (without start es own).hasType t := by
  rw [Bool.eq_iff_iff, Table.hasType_iff, Table.hasType_iff, h.kinds]

theorem sameSymbols :
    SameSymbols (without start es own) (fed copy start es d own') fun _ => True where
  namespaces n := by
    rw [Bool.eq_iff_iff]
    simp only [fed, without, Table.after_hasNamespace, copyRecords_home]
    grind
  members c s _ := by
    cases c with
    | ofNamespace n => simp only [Table.memberType?, Table.type?, h.hasType]
    | ofType t => simp only [Table.memberType?, Table.type?, h.hasType]

theorem nodes {key : NodeKey} (hc : key.tree ≠ copy.id) (hm : key.tree ≠ .marker) :
    (fed copy start es d own').typeOfNode? key = (without start es own).typeOfNode? key ∧
      (without start es own).typeOfNode? key = (start.after es).typeOfNode? key := by
  have hnone : ∀ {other : SourceTree} {table : Table} {e : Declaration},
      IsCopyClass other table e → key.tree ≠ other.id → ∀ known,
      declarationsAt (copyRecords other known e) key = [] := by
    intro other table e he hne known
    rw [declarationsAt, copyRecords_declarations, List.filter_eq_nil_iff, List.forall_mem_singleton]
    intro hkey
    refine hne ?_
    rw [← of_decide_eq_true hkey, ← he.tree]
    rfl
  simp only [fed, without, Table.after_typeOfNode?, hnone h.copied hc, hnone h.own hm,
    hnone h.own' hm]
  exact ⟨rfl, rfl⟩

/-- The base of a type is the one from before, except that the first base of the marker class is
that of the copy. -/
theorem bases (t : TypePath) :
    (without start es own).base? t = (start.after es).base? t ∧
        (fed copy start es d own').base? t = (start.after es).base? t ∨
      t = type ∧ (without start es own).base? t = own.base? ∧
        (fed copy start es d own').base? t = d.base? := by
  simp only [fed, without, Table.after_base?, declarationsOf_copyRecords, h.copied.path,
    h.own.path, h.own'.path]
  by_cases ht : type = t
  · subst ht
    rw [if_pos rfl, if_pos rfl, if_pos rfl, h.later_none rfl]
    cases start.base? type with
    | none =>
      rw [List.findSome?_singleton, List.findSome?_singleton, List.findSome?_singleton,
        h.copied.base]
      exact .inr ⟨rfl, rfl, rfl⟩
    | some b => exact .inl ⟨rfl, rfl⟩
  · left
    simp only [if_neg ht, List.findSome?_nil, Option.or_none, and_self]

/-- Both tables list the same bases, apart from the one of the marker class, which is listed where
the class is declared first. -/
theorem base_lists : ∃ more, (es = [] → more = []) ∧
    (start.after es).bases = start.bases ++ more ∧
    ((without start es own).bases = start.bases ++ more ∧
        (fed copy start es d own').bases = start.bases ++ more ∨
      (without start es own).bases = (start.bases ++ more) ++ [copyBase tree (start.after es)] ∧
        (fed copy start es d own').bases = (start.bases ++ [copyBase copy start]) ++ more) := by
  have hother : ∀ e ∈ declarationsIn es,
      ((start.after (copyRecords copy start d)).base? e.path).isSome =
        (start.base? e.path).isSome := by
    intro e he
    rw [Table.after_base?, declarationsOf_copyRecords, h.copied.path,
      if_neg (h.later e he).symm, List.findSome?_nil, Option.or_none]
  obtain ⟨more, hmore, hmore'⟩ := start.after_bases_append es hother
  have hknown : (start.after es).base? type = start.base? type := by
    rw [Table.after_base?, h.later_none rfl, List.findSome?_nil, Option.or_none]
  have hfed : (((start.after (copyRecords copy start d)).after es).base? type).isSome = true := by
    rw [Table.after_base?, h.later_none rfl, Table.after_base?, declarationsOf_copyRecords,
      if_pos h.copied.path, List.findSome?_singleton, h.copied.base]
    simp
  refine ⟨more, ?_, hmore, ?_⟩
  · rintro rfl
    exact List.append_right_eq_self.mp hmore.symm
  · rw [without, fed, copyRecords_bases h.own, copyRecords_bases h.own', hmore', hmore,
      copyRecords_bases h.copied, hfed, hknown, if_pos rfl, List.append_nil]
    cases (start.base? type).isSome with
    | true => exact .inl ⟨by rw [if_pos rfl, List.append_nil], by rw [if_pos rfl, List.append_nil]⟩
    | false => exact .inr ⟨rfl, rfl⟩

/-! ## Levels -/

theorem copy_fresh {mark : Mark} (hm : mark.tree = copy.id)
    (hr : Table.rankIn copy.id start.frames ≤ mark.rank) : mark ∉ (start.after es).frames := by
  obtain ⟨registered, ha⟩ := h.before
  rw [Table.after_frames, List.mem_append, List.mem_filterMap]
  rintro (hmem | ⟨e, he, hmark⟩)
  · have hrank := ha.frames mark hmem
    rw [hm] at hrank
    exact absurd hrank (Nat.not_lt.mpr hr)
  · obtain ⟨other, hne, -, hfrom⟩ := h.sent e he
    exact hne ((hfrom.mark hmark).symm.trans hm)

theorem marker_fresh {mark : Mark} (hm : mark.tree = .marker) :
    mark ∉ (start.after es).frames := by
  rw [Table.after_frames, List.mem_append, List.mem_filterMap]
  rintro (hmem | ⟨e, he, hmark⟩)
  · exact h.foreign mark hmem hm
  · obtain ⟨other, -, hne, hfrom⟩ := h.sent e he
    exact hne ((hfrom.mark hmark).symm.trans hm)

theorem fresh_locals {mark : Mark} (hm : mark ∉ (start.after es).frames) :
    (start.after es).locals mark = [] := by
  obtain ⟨registered, ha⟩ := h.known
  rw [Table.locals, List.filter_eq_nil_iff]
  intro u hu hframe
  exact hm (ha.levels u hu mark (of_decide_eq_true hframe))

/-- The levels from before keep their directives. -/
theorem locals_of_known {mark : Mark} (hm : mark ∈ (start.after es).frames) :
    (fed copy start es d own').locals mark = (without start es own).locals mark := by
  have hcopy : (copyFile copy start).mark ≠ mark := by
    rintro rfl
    exact h.copy_fresh rfl (Nat.le_refl _) hm
  have hmarker : ∀ table, (copyFile tree table).mark ≠ mark := by
    rintro table rfl
    exact h.marker_fresh rfl hm
  simp only [fed, without, Table.after_locals, copyRecords_locals, if_neg hcopy,
    if_neg (hmarker _), List.append_nil]

theorem without_locals_of_fresh {mark : Mark} (hm : mark ∉ (start.after es).frames) :
    (without start es own).locals mark = if (copyFile tree (start.after es)).mark = mark then
      [copyDirective tree (start.after es)] else [] := by
  rw [without, Table.after_locals, copyRecords_locals, h.fresh_locals hm, List.nil_append]

theorem fed_locals_of_fresh {mark : Mark} (hm : mark ∉ (start.after es).frames)
    (ht : mark.tree = copy.id) : (fed copy start es d own').locals mark =
      if (copyFile copy start).mark = mark then [copyDirective copy start] else [] := by
  have hmarker : ∀ table, (copyFile tree table).mark ≠ mark := by
    rintro table rfl
    exact h.id ht.symm
  have hnone := h.fresh_locals hm
  rw [Table.after_locals, List.append_eq_nil_iff] at hnone
  simp only [fed, Table.after_locals, copyRecords_locals, if_neg (hmarker _), hnone.1, hnone.2,
    List.append_nil, List.nil_append]

/-! ## Names -/

theorem sameDirectives (us : List Using) : List.Forall₂
    (SameDirective (without start es own) (fed copy start es d own')) us us :=
  List.forall₂_same.mpr fun _ _ =>
    ⟨rfl, rfl, fun scope => h.sameSymbols.readTarget rfl rfl (fun _ _ _ _ => trivial) scope⟩

/-- Scopes from before look the same. -/
theorem sameLevels {scope : Scope} (hs : ∀ frame ∈ scope, frame.mark ∈ (start.after es).frames) :
    SameLevels (without start es own) (fed copy start es d own') scope scope := by
  induction scope with
  | nil => exact .nil
  | cons frame outer ih =>
    obtain ⟨hframe, houter⟩ := List.forall_mem_cons.mp hs
    refine .cons rfl rfl ?_ (ih houter)
    rw [usingsOf_eq, usingsOf_eq, h.locals_of_known hframe, fed_globals, without_globals]
    exact h.sameDirectives _

/-- The levels of the copy look like those of the marker source. -/
theorem copyLevels : SameLevels (without start es own) (fed copy start es d own')
    [copyHome tree (start.after es), copyFile tree (start.after es)]
    [copyHome copy start, copyFile copy start] := by
  have hhome := h.copy_fresh rfl (Nat.le_of_succ_le (copyHome_rank copy start).ge)
  have hfile := h.copy_fresh rfl (Nat.le_refl (copyFile copy start).mark.rank)
  refine .cons rfl rfl ?_ (.cons rfl rfl ?_ .nil)
  · rw [usingsOf_eq, usingsOf_eq, h.without_locals_of_fresh (h.marker_fresh rfl),
      h.fed_locals_of_fresh hhome rfl, if_neg (copyHome_mark _ _), if_neg (copyHome_mark _ _)]
    exact .nil
  · rw [usingsOf_eq, usingsOf_eq, h.without_locals_of_fresh (h.marker_fresh rfl),
      h.fed_locals_of_fresh hfile rfl, if_pos rfl, if_pos rfl, fed_globals, without_globals]
    exact .cons ⟨rfl, rfl, fun scope => h.sameSymbols.readTarget (h.isCopy.nameOf_identifier _ _ _)
      (h.isCopy.text_eq _) (fun _ _ _ _ => trivial) scope⟩ (h.sameDirectives _)

section

variable {trees others : List SourceTree}
  (hd : DeclaresTrees trees .empty (without start es own))
  (hd' : DeclaresTrees others .empty (fed copy start es d own'))

include hd hd'

theorem bindType_alone {b b' : BaseReference} (hb : b ∈ (without start es own).bases)
    (hb' : b' ∈ (fed copy start es d own').bases)
    (hsame : Corresponds (without start es own) (fed copy start es d own') b.name b'.name) :
    alone (bindType (fed copy start es d own') b'.name) =
      alone (bindType (without start es own) b.name) := by
  obtain ⟨registered, ha⟩ := hd.settled settled_empty
  obtain ⟨registered', ha'⟩ := hd'.settled settled_empty
  have hside : SideBySide (without start es own) (fed copy start es d own') (fun _ => True)
      registered registered' := ⟨h.sameSymbols, ha.toScoped, ha'.toScoped⟩
  exact alone_eq_of_agree (hside.bindType hsame (ha.bases b hb) (ha'.bases b' hb')
    fun _ _ _ _ => ⟨trivial, trivial⟩)

theorem known_alone {b : BaseReference} (hb : b ∈ (start.after es).bases)
    (hmem : b ∈ (without start es own).bases) (hmem' : b ∈ (fed copy start es d own').bases) :
    alone (bindType (fed copy start es d own') b.name) =
      alone (bindType (without start es own) b.name) := by
  obtain ⟨known, hk⟩ := h.known
  exact h.bindType_alone hd hd' hmem hmem'
    ⟨rfl, h.sameLevels (hk.levels_known (hk.bases b hb)), rfl⟩

theorem copied_alone (hmem : copyBase tree (start.after es) ∈ (without start es own).bases)
    (hmem' : copyBase copy start ∈ (fed copy start es d own').bases) :
    alone (bindType (fed copy start es d own') (copyBase copy start).name) =
      alone (bindType (without start es own) (copyBase tree (start.after es)).name) :=
  h.bindType_alone hd hd' hmem hmem' ⟨h.isCopy.nameOf_identifier _ _ _, h.copyLevels, rfl⟩

theorem bindAttribute_alone (counts : TypePath → Bool) {r : Reference}
    (hr : r ∈ (start.after es).attributes) :
    alone (bindAttribute (fed copy start es d own') counts r) =
      alone (bindAttribute (without start es own) counts r) := by
  obtain ⟨registered, ha⟩ := hd.settled settled_empty
  obtain ⟨registered', ha'⟩ := hd'.settled settled_empty
  obtain ⟨known, hk⟩ := h.known
  have hside : SideBySide (without start es own) (fed copy start es d own') (fun _ => True)
      registered registered' := ⟨h.sameSymbols, ha.toScoped, ha'.toScoped⟩
  obtain ⟨f, hf, hmem⟩ := List.mem_flatMap.mp hr
  have hsame : Corresponds (without start es own) (fed copy start es d own') r r :=
    ⟨rfl, h.sameLevels (hk.levels_known (hk.attributes f hf r hmem)), rfl⟩
  refine alone_eq_of_agree (hside.bindAttribute (fun s => h.sameSymbols.sameMembers trivial counts)
    hsame ?_ ?_ fun _ _ _ _ => trivial)
  · exact ha.attributes f (by rwa [without_fields]) r hmem
  · exact ha'.attributes f (by rwa [fed_fields]) r hmem

/-- **Every name is bound as without the copy.** -/
theorem counterparts : Counterparts (without start es own) (fed copy start es d own') where
  kinds := h.kinds
  count := types_length_eq (hd.stored Stored.empty).types (hd'.stored Stored.empty).types h.hasType
  bases t := by
    rcases h.bases t with ⟨hb, hb'⟩ | ⟨-, hb, hb'⟩
    · cases hbase : (start.after es).base? t with
      | none =>
        rw [hb, hb', hbase]
        exact .none
      | some b =>
        have hmem := List.mem_of_find?_eq_some (hb.trans hbase)
        have hmem' := List.mem_of_find?_eq_some (hb'.trans hbase)
        rw [hb, hb', hbase]
        exact .some (h.known_alone hd hd' (List.mem_of_find?_eq_some hbase) hmem hmem')
    · have hmem := List.mem_of_find?_eq_some (hb.trans h.own.base)
      have hmem' := List.mem_of_find?_eq_some (hb'.trans h.copied.base)
      rw [hb, hb', h.own.base, h.copied.base]
      exact .some (h.copied_alone hd hd' hmem hmem')
  attributes counts := by
    rw [Table.attributes, Table.attributes, without_fields, fed_fields]
    exact List.forall₂_same.mpr fun r hr => h.bindAttribute_alone hd hd' counts hr

/-- The first base at fault is the same, unless that is the base of the marker class and others may
come before it in one of the tables. -/
theorem basesAlone_fault (ho : Unhindered start es own) :
    ((fed copy start es d own').basesAlone (fed copy start es d own').bases).2 =
      ((without start es own).basesAlone (without start es own).bases).2 := by
  obtain ⟨more, hnil, hknown, ⟨hb, hb'⟩ | ⟨hb, hb'⟩⟩ := h.base_lists
  · rw [Table.basesAlone, Table.basesAlone]
    refine congrArg Prod.snd ?_
    rw [hb'.trans hb.symm]
    refine untilFault_congr (List.forall₂_same.mpr fun b hmem => ?_)
    exact h.known_alone hd hd' (by rwa [hknown, ← hb]) hmem (by rwa [hb', ← hb])
  · have hsame : ∀ bs ⊆ start.bases ++ more,
        untilFault (fun b => alone (bindType (fed copy start es d own') b.name)) bs =
          untilFault (fun b => alone (bindType (without start es own) b.name)) bs := by
      refine fun bs hsub => untilFault_congr (List.forall₂_same.mpr fun b hmem => ?_)
      refine h.known_alone hd hd' (by rw [hknown]; exact hsub hmem) ?_ ?_
      · rw [hb]
        exact List.mem_append_left _ (hsub hmem)
      · rw [hb', List.append_assoc, List.mem_append, List.mem_append, or_left_comm]
        exact .inr (List.mem_append.mp (hsub hmem))
    have hcopied := h.copied_alone hd hd' (by rw [hb]; simp) (by rw [hb']; simp)
    rw [Table.basesAlone, Table.basesAlone, hb, hb', untilFault_append, untilFault_append,
      untilFault_append, untilFault_append, hsame _ (List.subset_append_left _ _),
      hsame _ (List.subset_append_right _ _)]
    rcases ho (by rw [hb]; simp) with rfl | ⟨base, hbase⟩
    · simp only [hnil rfl, untilFault, hcopied, Option.or_none]
    · simp only [untilFault, hcopied, hbase, Option.or_none]

end

/-- The base of the marker class can only fail to be bound if the target of some global directive
cannot be read. -/
theorem unhindered {trees : List SourceTree}
    (hd : DeclaresTrees trees .empty (without start es own))
    (hr : ∀ u ∈ (start.after es).usings, u.frame = none → u.tree.Reads u.target) :
    Unhindered start es own := by
  intro hmem
  obtain ⟨registered, ha⟩ := hd.settled settled_empty
  refine .inr (bindType_reads ha.toScoped (ha.bases _ hmem) (identifier_reads base_text) ?_)
  have hglobals : ∀ u ∈ (start.after es).globals, u.tree.Reads u.target := by
    intro u hu
    obtain ⟨hin, hframe⟩ := List.mem_filter.mp hu
    exact hr u hin (of_decide_eq_true hframe)
  refine List.forall_mem_cons.mpr ⟨?_, List.forall_mem_singleton.mpr ?_⟩
  · rw [usingsOf_eq, h.without_locals_of_fresh (h.marker_fresh rfl), if_neg (copyHome_mark _ _)]
    exact List.forall_mem_nil _
  · rw [usingsOf_eq, h.without_locals_of_fresh (h.marker_fresh rfl), if_pos rfl, without_globals]
    exact List.forall_mem_cons.mpr ⟨identifier_reads import_text, hglobals⟩

end Fed

/-! ## Declaring a copy between other trees -/

theorem copyRecords_from {copy : SourceTree} {table : Table} {d : Declaration} (h : d.tree = copy) :
    ∀ e ∈ copyRecords copy table d, e.From copy := by
  simp [copyRecords, copyOpening, Event.From, copyFile, copyHome, copyDirective, h]

theorem declares_copyRecords {copy : SourceTree} (hc : IsCopy copy) (table : Table) :
    ∃ d, IsCopyClass copy table d ∧
      DeclaresTree copy table (table.after (copyRecords copy table d)) := by
  obtain ⟨node, -, -, hnode⟩ := declaresCopy hc table
  obtain ⟨d, hd, hlast⟩ := copy_recorded hc hnode
  exact ⟨d, hd, by rwa [hlast] at hnode⟩

/-- What a copy records does not keep other trees from making their own records. -/
theorem IsCopyClass.fits {copy : SourceTree} {table : Table} {d : Declaration}
    (hd : IsCopyClass copy table d) {trees : List SourceTree} (hnew : ∀ t ∈ trees, t.id ≠ copy.id)
    {es : List Event} (hlater : ∀ e ∈ declarationsIn es, e.path ≠ type) :
    (∀ t ∈ trees, SameRanks t table (table.after (copyRecords copy table d))) ∧
      SameKinds es table (table.after (copyRecords copy table d)) := by
  refine ⟨fun t ht => SameRanks.sent (hnew t ht).symm (copyRecords_from hd.tree) table, ?_⟩
  intro e he
  rw [Table.after_kindOf?, declarationsOf_copyRecords, hd.path, if_neg (hlater e he).symm,
    List.head?_nil, Option.map_none, Option.or_none]

/-- The trees after a copy are declared as they would be without it, unless they declare the marker
class. -/
theorem fed_of_declared {copy : SourceTree} (hc : IsCopy copy) (hid : copy.id ≠ .marker)
    {pre post : List SourceTree} (hids : ∀ t ∈ pre ++ post, t.id ≠ .marker)
    (hnew : ∀ t ∈ post, t.id ≠ copy.id) {start : Table} {es : List Event}
    (hpre : DeclaresTrees pre .empty start) (hpost : DeclaresTrees post start (start.after es))
    (hsent : ∀ e ∈ es, ∃ t ∈ post, e.From t)
    (hagain : ∀ other, (∀ t ∈ post, SameRanks t start other) → SameKinds es start other →
      DeclaresTrees post other (other.after es))
    (hlater : ∀ e ∈ declarationsIn es, e.path ≠ type) :
    ∃ d own own', Fed copy start es d own own' ∧
      DeclaresTrees ((pre ++ post) ++ [tree]) .empty (without start es own) ∧
      DeclaresTrees ((pre ++ copy :: post) ++ [tree]) .empty (fed copy start es d own') := by
  obtain ⟨d, hd, hcopied⟩ := declares_copyRecords hc start
  obtain ⟨own, hown, hlast⟩ := declares_copyRecords tree_isCopy (start.after es)
  obtain ⟨own', hown', hlast'⟩ := declares_copyRecords tree_isCopy
    ((start.after (copyRecords copy start d)).after es)
  obtain ⟨hranks, hkinds⟩ := hd.fits hnew hlater
  have hpost' := hagain _ hranks hkinds
  have hforeign : ∀ mark ∈ start.frames, mark.tree ≠ .marker := by
    obtain ⟨before, rfl, hbefore, -⟩ := hpre.replays
    intro mark hmark
    rw [Table.after_frames] at hmark
    obtain ⟨e, he, hm⟩ := List.mem_filterMap.mp hmark
    obtain ⟨t, ht, hfrom⟩ := hbefore e he
    rw [hfrom.mark hm]
    exact hids t (List.mem_append_left _ ht)
  have hothers : ∀ e ∈ es,
      ∃ other : SourceTree, other.id ≠ copy.id ∧ other.id ≠ .marker ∧ e.From other := by
    intro e he
    obtain ⟨t, ht, hfrom⟩ := hsent e he
    exact ⟨t, hnew t ht, hids t (List.mem_append_right _ ht), hfrom⟩
  have hall := hpre.append hpost
  refine ⟨d, own, own', ⟨hc, hid, hd, hown, hown', hlater, hothers, hforeign,
    fun e he => ((hpre.stored Stored.empty).entries e he).2, hpre.settled settled_empty,
    hall.settled settled_empty⟩, hall.append (.cons hlast .nil), ?_⟩
  exact (hpre.append (.cons hcopied hpost')).append (.cons hlast' .nil)

end PrintGen.Marker
