import PrintGen.Proofs.BaseChains
import PrintGen.Proofs.GlobalMarker
import PrintGen.Proofs.MetadataNames

/-!
# Full names

The full name of a type is `global::` with all names on the way to the type. It is followed from the
global namespace, member by member, so neither the place where it is written nor any directive has a
say in what it leads to. One thing can lead astray: in a namespace, a namespace of a name comes
before a type, so the outermost type around the named one must not share its path with a namespace.
-/

namespace PrintGen.Symbols

open Syntax

/-- The segments that lead to a namespace. -/
def Namespace.segments (n : Namespace) : List Segment :=
  n.names.map fun name => ⟨name, 0⟩

namespace TypePath

/-- The segments that lead to what a type lies in. -/
def qualifier : TypePath → List Segment
  | top home _ => home.segments
  | nested outer _ => outer.qualifier ++ [outer.own]

/-- The full name of a type, as it is written from the global namespace. -/
def fullName (t : TypePath) : QualifiedName :=
  ⟨some "global", t.qualifier ++ [t.own]⟩

/-- The types around a type, the innermost first. -/
def enclosing : TypePath → List TypePath
  | top _ _ => []
  | nested outer _ => outer :: outer.enclosing

end TypePath

/-- A type cannot be taken for a namespace: none has its path, or it has type parameters. -/
def Unmistakable (table : Table) (t : TypePath) : Prop :=
  t.isTopLevel = true → t.own.arity = 0 → table.hasNamespace (.child t.home t.name) = false

instance (table : Table) (t : TypePath) : Decidable (Unmistakable table t) :=
  inferInstanceAs (Decidable (t.isTopLevel = true → t.own.arity = 0 → _))

theorem Table.memberType?_of_hasType {table : Table} {c : Entity} {s : Segment}
    (h : table.hasType (c.member s) = true) : table.memberType? c s = some (c.member s) := by
  rw [memberType?_eq, type?, if_pos h]

/-! ## Following a full name -/

section

variable {table : Table}

theorem descendAll?_append (start : Option Entity) (segments : List Segment) (last : Segment) :
    descendAll? table start (segments ++ [last]) =
      (descendAll? table start segments).bind fun c => table.descend? c last := by
  rw [descendAll?, List.foldl_append]
  rfl

variable (hs : Stored table)

include hs

theorem Stored.descend_namespace {n : Namespace} (hn : table.hasNamespace n = true) :
    descendAll? table (some (.ofNamespace .global)) n.segments = some (.ofNamespace n) := by
  induction n with
  | global => rfl
  | child parent name ih =>
    rw [Namespace.segments, Namespace.names, List.map_append, List.map_singleton,
      descendAll?_append]
    have hparent := ih (hs.parents parent name hn)
    rw [Namespace.segments] at hparent
    simp [hparent, Table.descend?, hn]

/-- All names on the way to a type lead to it, if the type and those around it cannot be taken for
namespaces. -/
theorem Stored.descend_type {t : TypePath} (ht : table.hasType t = true)
    (hclear : ∀ e ∈ t :: t.enclosing, Unmistakable table e) :
    descendAll? table (some (.ofNamespace .global)) (t.qualifier ++ [t.own]) =
      some (.ofType t) := by
  rw [descendAll?_append]
  obtain ⟨hown, hrest⟩ := List.forall_mem_cons.mp hclear
  induction t with
  | top home own =>
    have hmember : table.memberType? (.ofNamespace home) own = some (.top home own) :=
      Table.memberType?_of_hasType (c := .ofNamespace home) ht
    have hno : ¬(own.arity = 0 && table.hasNamespace (.child home own.name)) = true := by
      rw [Bool.and_eq_true, decide_eq_true_eq]
      rintro ⟨hzero, hhas⟩
      have hnone : table.hasNamespace (.child home own.name) = false := hown rfl hzero
      rw [hnone] at hhas
      cases hhas
    rw [TypePath.qualifier, hs.descend_namespace (hs.containers _ ht), Option.bind_some,
      Table.descend?, TypePath.own, if_neg hno, hmember]
    rfl
  | nested outer own ih =>
    have hmember : table.memberType? (.ofType outer) own = some (.nested outer own) :=
      Table.memberType?_of_hasType (c := .ofType outer) ht
    have houter := ih (hs.containers _ ht) hrest (hrest outer (by simp [TypePath.enclosing]))
      fun e he => hrest e (by simp [TypePath.enclosing, he])
    rw [TypePath.qualifier, descendAll?_append, houter, Option.bind_some, Table.descend?,
      TypePath.own, hmember]
    rfl

theorem Stored.descend_container {t : TypePath} (ht : table.hasType t = true)
    (hclear : ∀ e ∈ t.enclosing, Unmistakable table e) :
    descendAll? table (some (.ofNamespace .global)) t.qualifier = some t.container := by
  cases t with
  | top home own => exact hs.descend_namespace (hs.containers _ ht)
  | nested outer own => exact hs.descend_type (hs.containers _ ht) hclear

end

/-! ## Binding a full name -/

/-- A name that is not written as a verbatim identifier. -/
def Unmarked (name : String) : Prop :=
  name.toList.head? ≠ some '@'

instance (name : String) : Decidable (Unmarked name) :=
  inferInstanceAs (Decidable (_ ≠ _))

theorem Unmarked.withoutMark {name : String} (h : Unmarked name) :
    Symbols.withoutMark name = name := by
  rw [Symbols.withoutMark]
  split
  · rename_i hl
    exact absurd (by rw [hl]; rfl) h
  · rfl

theorem Unmarked.spellings {name : String} (h : Unmarked name) :
    attributeSpellings name = [name, name ++ "Attribute"] := by
  rw [attributeSpellings]
  split
  · rename_i hl
    exact absurd (by rw [hl]; rfl) h
  · rfl

/-- The type next to a type that an attribute of the same name may mean as well. -/
def TypePath.suffixed (t : TypePath) : TypePath :=
  t.container.member ⟨t.name ++ "Attribute", t.own.arity⟩

theorem TypePath.ne_suffixed (t : TypePath) : t ≠ t.suffixed := by
  intro h
  have hname := congrArg (fun u : TypePath => u.own.name.length) h
  simp only [suffixed, Entity.member_own, TypePath.name, String.length_append] at hname
  have hlength : "Attribute".length = 9 := by decide
  omega

theorem hasType_of_isAttributeClass {table : Table} {bases : List (TypePath × Option TypePath)}
    {t : TypePath} (h : isAttributeClass table bases t = true) : table.hasType t = true := by
  obtain ⟨l, hl, -⟩ := leavesWithin_succ_iff.mp h
  rw [Table.hasType_eq_isSome, ← Option.isSome_map, ← lineageIn, hl]
  rfl

section

variable {table : Table} {counts : TypePath → Bool} {t : TypePath} (ht : table.hasType t = true)
  (hm : Unmarked t.name)

include ht

theorem Table.memberType?_own : table.memberType? t.container t.own = some t := by
  rw [memberType?_of_hasType (by rwa [t.container_member]), t.container_member]

include hm

/-- Two types may be meant by an attribute: the one of the name and the one with the suffix. -/
theorem spelled_types : ((attributeSpellings t.own.name).map fun spelling =>
      viable? counts (table.memberType? t.container ⟨spelling, t.own.arity⟩)) =
    [viable? counts (some t), viable? counts (table.type? t.suffixed)] := by
  have hspellings : attributeSpellings t.own.name = [t.own.name, t.own.name ++ "Attribute"] :=
    hm.spellings
  have hown : table.memberType? t.container ⟨t.own.name, t.own.arity⟩ = some t :=
    Table.memberType?_own ht
  rw [hspellings, List.map_cons, List.map_singleton, hown, Table.memberType?_eq]
  rfl

end

section

variable {I : Findings → Prop} {table : Table} {counts : TypePath → Bool} {t : TypePath}
  {r : Reference} (hc : descendAll? table (some (.ofNamespace .global)) t.qualifier =
    some t.container) (ht : table.hasType t = true) (hm : Unmarked t.name)
  (hr : r.site.tree.nameOf r.site.node = .ok t.fullName)

include hc ht hm hr

theorem bindType_fullName : Gives I (bindType table r) (.ok (some t)) := by
  have hlast : (⟨withoutMark t.own.name, t.own.arity⟩ : Segment) = t.own :=
    congrArg (Segment.mk · t.own.arity) hm.withoutMark
  have hfound : viable? (fun _ => true)
      ((descendAll? table (some (.ofNamespace .global)) t.qualifier).bind
        fun c => table.memberType? c t.own) = some t := by
    rw [hc, Option.bind_some, Table.memberType?_own ht]
    rfl
  rw [bindType, hr]
  refine Gives.after (Gives.pure _) ?_
  simp only [TypePath.fullName, List.getLast?_concat, List.dropLast_concat, hlast]
  rw [← hfound]
  exact typeNamed_global t.qualifier t.own r.scope r.within

/-- An attribute is bound to the type if it counts and the one with the suffix does not. -/
theorem bindAttribute_fullName (hcounts : counts t = true) (hother : counts t.suffixed = false) :
    Gives I (bindAttribute table counts r) (.ok (some t)) := by
  have hnone : viable? counts (table.type? t.suffixed) = none := by
    rw [Table.type?]
    split
    · rw [viable?, Option.filter_some, if_neg (by rw [hother]; decide)]
    · rfl
  have hfound : [viable? counts (some t), viable? counts (table.type? t.suffixed)].filterMap id =
      [t] := by
    rw [hnone, viable?, Option.filter_some, if_pos hcounts]
    rfl
  rw [bindAttribute, hr]
  refine Gives.after (Gives.pure _) ?_
  simp only [TypePath.fullName, List.getLast?_concat, List.dropLast_concat]
  refine Gives.after (spellings_global hc t.own r.scope r.within) ?_
  rw [spelled_types ht hm, hfound]
  exact Gives.pure _

theorem bindAttribute_ambiguous (hcounts : counts t = true) (hother : counts t.suffixed = true)
    (hhas : table.hasType t.suffixed = true) :
    Gives (fun _ => True) (bindAttribute table counts r) (.ok none) := by
  have hfound : ([viable? counts (some t), viable? counts (table.type? t.suffixed)].filterMap
      id).eraseDups = [t, t.suffixed] := by
    rw [Table.type?, if_pos hhas, viable?, Option.filter_some, if_pos hcounts, viable?,
      Option.filter_some, if_pos hother]
    simp [List.eraseDups_cons, t.ne_suffixed.symm]
  rw [bindAttribute, hr]
  refine Gives.after (Gives.pure _) ?_
  simp only [TypePath.fullName, List.getLast?_concat, List.dropLast_concat]
  refine Gives.after (spellings_global hc t.own r.scope r.within) ?_
  rw [spelled_types ht hm, hfound]
  exact Gives.after (Gives.of_modify fun _ _ => trivial) (Gives.pure _)

end

/-- **A full name leads to its type from everywhere.** Take a declared type whose own name is not
marked as verbatim and whose outermost enclosing type, if it has no type parameters, does not share
its path with a namespace. Wherever its full name is written, in whatever scope and inside whatever
type, and whatever directives and aliases there are, the name is bound to the type. As the name of
an attribute it is bound to the type if this is an attribute class and the type with the suffix next
to it is not, and to nothing if both are. -/
theorem full_names_bind_everywhere (trees : List SourceTree) (t : TypePath)
    (ht : (build trees).model.table.hasType t = true) (hm : Unmarked t.name)
    (hclear : ∀ e ∈ t.enclosing, Unmistakable (build trees).model.table e)
    (r : Reference) (hr : r.site.tree.nameOf r.site.node = .ok t.fullName) :
    Gives (fun _ => True) (bindType (build trees).model.table r) (.ok (some t)) ∧
    ((build trees).model.isAttributeClass t = true →
      ((build trees).model.isAttributeClass t.suffixed = false →
        Gives (fun _ => True)
          (bindAttribute (build trees).model.table (build trees).model.isAttributeClass r)
          (.ok (some t))) ∧
      ((build trees).model.isAttributeClass t.suffixed = true →
        Gives (fun _ => True)
          (bindAttribute (build trees).model.table (build trees).model.isAttributeClass r)
          (.ok none))) := by
  have hs : Stored (build trees).model.table := by
    rw [build_table]
    exact stored_declaredTable trees
  have hc := hs.descend_container ht hclear
  refine ⟨bindType_fullName hc ht hm hr, fun hcounts => ⟨fun hother => ?_, fun hother => ?_⟩⟩
  · exact bindAttribute_fullName hc ht hm hr hcounts hother
  · exact bindAttribute_ambiguous hc ht hm hr hcounts hother (hasType_of_isAttributeClass hother)

theorem full_names_of_sample :
    ∃ r ∈ (build [Sample.qualified]).model.table.attributes,
    ∃ r' ∈ (build [Sample.qualified]).model.table.attributes,
      Gives (fun _ => True) (bindAttribute (build [Sample.qualified]).model.table
          (build [Sample.qualified]).model.isAttributeClass r)
        (.ok (some (.nested (.top (.child (.child .global "N") "K") ⟨"A", 1⟩) ⟨"B", 0⟩))) ∧
      Gives (fun _ => True) (bindType (build [Sample.qualified]).model.table r')
        (.ok (some (.top (.child (.child .global "N") "K") ⟨"C", 0⟩))) ∧
      Gives (fun _ => True) (bindAttribute (build [Sample.qualified]).model.table
        (build [Sample.qualified]).model.isAttributeClass r') (.ok none) := by
  -- The model is evaluated once for all that has to be known of it.
  have hfacts : (∀ t ∈ [TypePath.nested (.top (.child (.child .global "N") "K") ⟨"A", 1⟩) ⟨"B", 0⟩,
        .top (.child (.child .global "N") "K") ⟨"C", 0⟩],
      (build [Sample.qualified]).model.table.hasType t = true ∧
        (∀ e ∈ t.enclosing, Unmistakable (build [Sample.qualified]).model.table e) ∧
        (build [Sample.qualified]).model.isAttributeClass t = true ∧
        (build [Sample.qualified]).model.isAttributeClass t.suffixed = (t.name == "C") ∧
        ∃ r ∈ (build [Sample.qualified]).model.table.attributes,
          (r.site.tree.nameOf r.site.node).toOption = some t.fullName) := by
    decide +kernel
  rw [List.forall_mem_cons, List.forall_mem_singleton] at hfacts
  obtain ⟨⟨ht, hclear, hclass, hplain, r, hr, hname⟩, ht', hclear', hclass', hsuffix, r', hr',
    hname'⟩ := hfacts
  have hread : ∀ {r : Reference} {name : QualifiedName},
      (r.site.tree.nameOf r.site.node).toOption = some name →
      r.site.tree.nameOf r.site.node = .ok name := by
    intro r name h
    cases hn : r.site.tree.nameOf r.site.node with
    | error fault =>
      rw [hn] at h
      cases h
    | ok found =>
      rw [hn] at h
      exact congrArg Except.ok (Option.some.inj h)
  have hinner := full_names_bind_everywhere [Sample.qualified] _ ht (by decide) hclear r
    (hread hname)
  have houter := full_names_bind_everywhere [Sample.qualified] _ ht' (by decide) hclear' r'
    (hread hname')
  exact ⟨r, hr, r', hr', (hinner.2 hclass).1 hplain, houter.1, (houter.2 hclass').2 hsuffix⟩

end PrintGen.Symbols
