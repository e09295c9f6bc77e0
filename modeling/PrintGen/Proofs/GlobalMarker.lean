import PrintGen.Proofs.AttributeBinding
import PrintGen.Proofs.Replay

/-!
# Fields that name the marker from the global namespace

The marker class is an ordinary class of the compilation, so whether it is recognised depends on
what its base `Attribute` is bound to, and that is looked up among all that the other trees declare.
Where nothing there is called `Attribute` and nothing competes with the marker class in its own
namespace, an attribute that starts with `global::` leads to the marker class from anywhere.
-/

namespace PrintGen

open Syntax Symbols

namespace Symbols

/-! ## A base outside the compilation -/

/-- What a base is bound to stands under its type. -/
theorem lookup_bases {bases : List BaseReference} {bound : List (Option TypePath)}
    (hlength : bound.length = bases.length) {t : TypePath} {b : BaseReference}
    (h : (bases.find? fun b => b.type = t) = some b) :
    ∃ c, (b, c) ∈ bases.zip bound ∧
      ((bases.map BaseReference.type).zip bound).lookup t = some c := by
  induction bases generalizing bound with
  | nil => cases h
  | cons first rest ih =>
    obtain ⟨c, others, rfl⟩ := List.exists_cons_of_length_eq_add_one hlength
    rw [List.map_cons, List.zip_cons_cons, List.zip_cons_cons, List.lookup_cons]
    by_cases ht : first.type = t
    · rw [List.find?_cons_of_pos (by simpa using ht)] at h
      cases h
      rw [beq_iff_eq.mpr ht.symm]
      exact ⟨c, by simp, rfl⟩
    · rw [List.find?_cons_of_neg (by simpa using ht)] at h
      rw [beq_eq_false_iff_ne.mpr (Ne.symm ht)]
      obtain ⟨d, hd, hlookup⟩ := ih (by simpa using hlength) h
      exact ⟨d, by simp [hd], hlookup⟩

/-- A class with a base outside the compilation is an attribute class. -/
theorem isAttributeClass_of_external {table : Table} {bases : List (TypePath × Option TypePath)}
    {t : TypePath} (hk : table.kindOf? t = some .classType) (hb : bases.lookup t = some none) :
    isAttributeClass table bases t = true := by
  obtain ⟨e, he, hkind⟩ := Option.map_eq_some_iff.mp hk
  rw [isAttributeClass, leavesWithin, lineageIn, he, Option.map_some, hb]
  simp [hkind]

/-- A name that stands alone refers to nothing if no type and no alias in sight is called so. -/
theorem bindType_unbound {table : Table} {registered : Scope → Prop}
    (hc : Scoped table registered) {r : Reference} (hr : registered r.scope) {last : Segment}
    (hname : r.site.tree.nameOf r.site.node = .ok ⟨none, [last]⟩)
    (hplain : withoutMark last.name = last.name)
    (htypes : ∀ t, table.hasType t = true → t.own ≠ last)
    (halias : ∀ frame ∈ r.scope, ∀ u ∈ table.usingsOf frame, u.aliasName ≠ some last.name) :
    Yields (Kept table registered) (bindType table r) fun found => found = none := by
  rw [bindType]
  refine Yields.bind (Binding.ofExcept_yields _) fun name hread => ?_
  rw [hname] at hread
  cases hread
  have hsame : (⟨withoutMark last.name, last.arity⟩ : Segment) = last := by rw [hplain]
  simp only [List.getLast?_singleton, List.dropLast_singleton, hsame]
  refine (typeNamed_yields hc _ _ _ _ hr _).mono fun found hfound => ?_
  cases found with
  | none => rfl
  | some t =>
    obtain ⟨hhas, -, hown | ⟨-, -, -, frame, outer, hsuffix, u, hu, ha, -⟩⟩ := hfound t rfl
    · exact absurd hown (htypes t hhas)
    · exact absurd ha (halias frame (hsuffix.subset (by simp)) u hu)

/-! ## Names from the global namespace -/

section

variable {I : Findings → Prop} {table : Table} {counts : TypePath → Bool}

/-- A name that starts with `global::` is followed from the global namespace. -/
theorem typeNamed_global (qualifier : List Segment) (last : Segment) (scope : Scope)
    (within : Option TypePath) :
    Gives I (typeNamed table counts (some "global") qualifier last scope within)
      (.ok (viable? counts ((descendAll? table (some (.ofNamespace .global)) qualifier).bind
        fun c => table.memberType? c last))) := by
  rw [typeNamed, if_neg (by simp)]
  refine Gives.after ?_ (Gives.pure _)
  rw [qualifierEntity, if_pos rfl]
  exact Gives.after (Gives.pure _) (Gives.pure _)

/-- All spellings of an attribute are looked for in the container that the qualifier leads to. -/
theorem spellings_global {qualifier : List Segment} {c : Entity}
    (hc : descendAll? table (some (.ofNamespace .global)) qualifier = some c) (last : Segment)
    (scope : Scope) (within : Option TypePath) :
    Gives I ((attributeSpellings last.name).mapM fun spelling =>
        typeNamed table counts (some "global") qualifier ⟨spelling, last.arity⟩ scope within)
      (.ok ((attributeSpellings last.name).map fun spelling =>
        viable? counts (table.memberType? c ⟨spelling, last.arity⟩))) := by
  have hspelling : ∀ spelling ∈ attributeSpellings last.name, Gives I
      (typeNamed table counts (some "global") qualifier ⟨spelling, last.arity⟩ scope within)
      (.ok (viable? counts (table.memberType? c ⟨spelling, last.arity⟩))) := by
    intro spelling _
    rw [← Option.bind_some c fun c => table.memberType? c ⟨spelling, last.arity⟩, ← hc]
    exact typeNamed_global qualifier ⟨spelling, last.arity⟩ scope within
  have hall := Gives.mapM hspelling
  have hpure : ∀ (f : String → Option TypePath) (names : List String),
      names.mapM (fun n => (Except.ok (f n) : Except Fault (Option TypePath))) =
        .ok (names.map f) := fun f names => List.mapM_pure
  rwa [hpure] at hall

/-- An attribute in a namespace that exists is bound to the one class that a spelling leads to. -/
theorem bindAttribute_global {r : Reference} {home written : String} {t : TypePath}
    (hname : r.site.tree.nameOf r.site.node = .ok ⟨some "global", [⟨home, 0⟩, ⟨written, 0⟩]⟩)
    (hhome : table.hasNamespace (.child .global home) = true)
    (honly : ((attributeSpellings written).map fun spelling => viable? counts
      (table.type? (.top (.child .global home) ⟨spelling, 0⟩))).filterMap id = [t]) :
    Gives I (bindAttribute table counts r) (.ok (some t)) := by
  have hcontainer : descendAll? table (some (.ofNamespace .global)) [⟨home, 0⟩] =
      some (.ofNamespace (.child .global home)) := by
    simp [descendAll?, Table.descend?, hhome]
  have hfound : ((attributeSpellings written).map fun spelling => viable? counts
      (table.memberType? (.ofNamespace (.child .global home)) ⟨spelling, 0⟩)).filterMap id = [t] :=
    honly
  rw [bindAttribute, hname]
  refine Gives.after (Gives.pure _) ?_
  refine Gives.after (spellings_global hcontainer ⟨written, 0⟩ r.scope r.within) ?_
  rw [hfound]
  exact Gives.pure _

end

/-- What is not declared has no base and no kind. -/
theorem DeclaresTrees.undeclared {trees : List SourceTree} {table : Table}
    (h : DeclaresTrees trees .empty table) {t : TypePath} (ht : table.hasType t = false) :
    table.base? t = none ∧ table.kindOf? t = none := by
  obtain ⟨es, rfl⟩ := h.after
  have hnone : declarationsOf es t = [] := by
    rw [List.eq_nil_iff_forall_not_mem]
    intro d hd
    obtain ⟨hin, hpath⟩ := mem_declarationsOf.mp hd
    have hhas := (Table.after_hasType .empty es t).mpr (.inr (hpath ▸ List.mem_map_of_mem hin))
    rw [ht] at hhas
    cases hhas
  rw [Table.after_base?, Table.after_kindOf?, hnone]
  exact ⟨rfl, rfl⟩

end Symbols

namespace Marker

/-- What is declared leaves the marker class alone: no type is called `Attribute`, no directive for
all files makes that an alias, and no other type in its namespace can be meant by its name. -/
structure Undisturbed (table : Table) : Prop where
  types : ∀ e ∈ table.types, e.path.own ≠ ⟨"Attribute", 0⟩
  directives : ∀ u ∈ table.usings, u.frame = none → u.aliasName ≠ some "Attribute"
  members : ∀ name ∈ ["Printable", "PrintableAttribute", "PrintableAttributeAttribute"],
    table.hasType (.top home ⟨name, 0⟩) = false

/-- An attribute is written as the marker class, or its name without the suffix, from the global
namespace. -/
def Written (r : Reference) : Prop :=
  ∃ name ∈ ["Printable", "PrintableAttribute"], r.site.tree.nameOf r.site.node =
    .ok ⟨some "global", [⟨"PrintableFields", 0⟩, ⟨name, 0⟩]⟩

section

variable {trees : List SourceTree} {table last : Table} {d : Declaration}

theorem base_name : tree.nameOf baseName = .ok ⟨none, [⟨"Attribute", 0⟩]⟩ := by
  have hidentifier : ∀ source : SourceTree, source.nameOf baseName =
      (do let name ← source.text baseName; return ⟨none, [⟨name, 0⟩]⟩) := fun _ => rfl
  rw [hidentifier, base_text]
  rfl

/-- No alias `Attribute` is in sight of the marker class. -/
theorem no_alias_in_sight (htable : DeclaresTrees trees .empty table) (hu : Undisturbed table)
    (hlast : last = table.after (opening table ++ [.declaration d])) :
    ∀ frame ∈ [homeFrame table, fileFrame table], ∀ u ∈ last.usingsOf frame,
      u.aliasName ≠ some "Attribute" := by
  obtain ⟨registered, ha⟩ := htable.settled settled_empty
  have hfile : (fileFrame table).mark ∉ table.frames := ha.frames.fresh _
  have hhome : (homeFrame table).mark ∉ table.frames := fun hm =>
    (ha.frames.add tree.id).fresh tree.id (List.mem_append_left _ hm)
  intro frame hframe u huse
  obtain ⟨hmem, hseen⟩ := mem_usingsOf huse
  rw [hlast, Table.after_usings] at hmem
  rcases List.mem_append.mp hmem with hold | hnew
  · -- The levels of the marker source are new, so an older directive seen there is for all files.
    rcases hseen with hlevel | ⟨hglobal, -⟩
    · have hknown := ha.levels u hold _ hlevel
      rcases List.mem_pair.mp hframe with rfl | rfl
      · exact absurd hknown hhome
      · exact absurd hknown hfile
    · exact hu.directives u hold hglobal
  · obtain rfl := List.mem_singleton.mp hnew
    intro he
    cases he

theorem declarationsIn_opening :
    declarationsIn (opening table ++ [.declaration d]) = [d] := rfl

/-- The marker source adds one type. -/
theorem hasType_iff (hd : IsClass table d)
    (hlast : last = table.after (opening table ++ [.declaration d])) (t : TypePath) :
    last.hasType t = true ↔ table.hasType t = true ∨ t = type := by
  rw [hlast, Table.after_hasType, declarationsIn_opening, List.map_singleton,
    List.mem_singleton, hd.path]

/-- **The base of the marker class lies outside the compilation**, so it is an attribute class. -/
theorem isAttributeClass_type (h : (Resolver.compiled trees).fault = none)
    (hu : Undisturbed (build trees).model.table) :
    isAttributeClass (Resolver.compiled trees).model.table
      (bindTable (Resolver.compiled trees).model.table).model.bases type = true := by
  obtain ⟨htable, d, hd, hlast⟩ := Resolver.compiled_table h
  obtain ⟨hall, hfault, -⟩ := build_ok h
  obtain ⟨registered, ha⟩ := hall.settled settled_empty
  generalize (build trees).model.table = table at htable hd hlast hu
  generalize hcompiled : (Resolver.compiled trees).model.table = last at hlast
  rw [Resolver.compiled] at hcompiled
  rw [hcompiled] at ha hfault
  have hnew : table.hasType type = false := hu.members "PrintableAttribute" (by simp)
  obtain ⟨hnobase, hnokind⟩ := htable.undeclared hnew
  have honly : declarationsOf (opening table ++ [.declaration d]) type = [d] := by
    simp [declarationsOf, declarationsIn_opening, hd.path]
  have hkind : last.kindOf? type = some .classType := by
    rw [hlast, Table.after_kindOf?, hnokind, honly, Option.none_or, List.head?_cons,
      Option.map_some, hd.kind]
  have hbase : last.base? type = some
      ⟨type, ⟨⟨tree, baseName⟩, [homeFrame table, fileFrame table], none⟩⟩ := by
    rw [hlast, Table.after_base?, hnobase, honly, Option.none_or, List.findSome?_cons, hd.base]
  have htypes : ∀ t, last.hasType t = true → t.own ≠ ⟨"Attribute", 0⟩ := by
    intro t ht
    rcases (hasType_iff hd hlast t).mp ht with hold | rfl
    · obtain ⟨e, he, rfl⟩ := Table.exists_entry hold
      exact hu.types e he
    · decide
  -- The other bases may be bound to anything.
  have hbound : ∀ b ∈ last.bases, Yields (Kept last registered) (bindType last b.name)
      fun found => last.base? type = some b → found = none := by
    intro b hb
    by_cases hb' : last.base? type = some b
    · rw [hbase] at hb'
      cases hb'
      refine (bindType_unbound ha.toScoped (ha.bases _ hb) base_name rfl htypes
        (no_alias_in_sight htable hu hlast)).mono fun found hf _ => hf
    · exact (bindType_yields ha.toScoped (ha.bases b hb)).mono fun _ _ he => absurd he hb'
  obtain ⟨bound, hbases, hpairs, hlength⟩ := bindTable_bases Kept.none hbound
  obtain ⟨c, hc, hlookup⟩ := lookup_bases (hlength hfault) hbase
  obtain rfl := hpairs _ hc hbase
  exact isAttributeClass_of_external hkind (hbases ▸ hlookup)

/-- **An attribute that is written from the global namespace is bound to the marker class.** -/
theorem bindAttribute_written (hd : IsClass table d) (hu : Undisturbed table)
    (hlast : last = table.after (opening table ++ [.declaration d])) {I : Findings → Prop}
    {counts : TypePath → Bool} (hcounts : counts type = true) {r : Reference} (hr : Written r) :
    Gives I (bindAttribute last counts r) (.ok (some type)) := by
  have hhome : last.hasNamespace (.child .global "PrintableFields") = true := by
    rw [hlast, Table.after_hasNamespace]
    exact .inr ⟨.home home, by simp [opening], rfl⟩
  have htype : viable? counts (last.type? type) = some type := by
    rw [Table.type?, if_pos ((hasType_iff hd hlast type).mpr (.inr rfl)), viable?,
      Option.filter_some, if_pos hcounts]
  -- The other spellings lead to nothing.
  have hother : ∀ name, name ≠ "PrintableAttribute" →
      table.hasType (.top home ⟨name, 0⟩) = false →
      viable? counts (last.type? (.top home ⟨name, 0⟩)) = none := by
    intro name hname hfree
    have hno : ¬ last.hasType (.top home ⟨name, 0⟩) = true := by
      rw [hasType_iff hd hlast, hfree]
      rintro (hold | hsame)
      · cases hold
      · simp [type, hname] at hsame
    rw [Table.type?, if_neg hno]
    rfl
  obtain ⟨name, hname, hread⟩ := hr
  refine bindAttribute_global hread hhome ?_
  rcases List.mem_pair.mp hname with rfl | rfl
  · have hspellings : attributeSpellings "Printable" = ["Printable", "PrintableAttribute"] := by
      decide +kernel
    rw [hspellings, List.map_cons, List.map_singleton]
    exact congrArg₂ (fun a b => [a, b].filterMap id)
      (hother _ (by decide) (hu.members _ (by simp))) htype
  · have hspellings : attributeSpellings "PrintableAttribute" =
        ["PrintableAttribute", "PrintableAttributeAttribute"] := by
      decide +kernel
    rw [hspellings, List.map_cons, List.map_singleton]
    exact congrArg₂ (fun a b => [a, b].filterMap id) htype
      (hother _ (by decide) (hu.members _ (by simp)))

end

end Marker

/-! ## The fields of a compilation -/

theorem Resolver.isMarked_of_written {trees : List SourceTree} {resolver : Resolver}
    (hfound : found trees = .ok resolver) (hu : Marker.Undisturbed (build trees).model.table)
    {f : FieldEntry} (hf : f ∈ (build trees).model.table.fields) {r : Reference}
    (hr : r ∈ f.attributes) (hwritten : Marker.Written r) :
    ∃ b ∈ resolver.model.fields, b.field = f ∧ b.isMarked = true := by
  obtain ⟨hfault, rfl⟩ := found_eq hfound
  obtain ⟨-, d, hd, hlast⟩ := compiled_table hfault
  obtain ⟨-, hbound, hmodel⟩ := build_ok hfault
  have hfield : f ∈ (compiled trees).model.fields.map BoundField.field := by
    rw [Model.fields_field, hlast, Table.after_fields]
    exact List.mem_append_left _ hf
  obtain ⟨b, hb, rfl⟩ := List.mem_map.mp hfield
  obtain ⟨c, hc⟩ : ∃ c, (r, c) ∈ b.field.attributes.zip b.classes := by
    have hfst : (b.field.attributes.zip b.classes).map Prod.fst = b.field.attributes :=
      List.map_fst_zip (dealClasses_length hb).ge
    rw [← hfst] at hr
    obtain ⟨⟨_, c⟩, hp, rfl⟩ := List.mem_map.mp hr
    exact ⟨c, hp⟩
  refine ⟨b, hb, rfl, ?_⟩
  have hpair : (r, c) ∈ (compiled trees).model.table.attributes.zip
      (compiled trees).model.classes := by
    rw [Table.attributes, ← dealClasses_zip (compiled_classes hfault)]
    exact List.mem_flatMap_of_mem hb hc
  have hclass : c = some Marker.type := by
    have hcounts := Marker.isAttributeClass_type hfault hu
    have hwrittenAll : ∀ r ∈ (compiled trees).model.table.attributes, Yields (fun _ => True)
        (bindAttribute (compiled trees).model.table (isAttributeClass (compiled trees).model.table
          (bindTable (compiled trees).model.table).model.bases) r) fun c =>
        Marker.Written r → c = some Marker.type := by
      intro r _
      by_cases hw : Marker.Written r
      · exact (Marker.bindAttribute_written hd hu hlast hcounts hw).yields.mono fun _ he _ => he
      · exact (Yields.trivial _).mono fun _ _ he => absurd he hw
    rw [compiled, hmodel, bindTable_table] at hpair
    exact (bindTable_classes trivial (fun b _ => Yields.trivial _) hwrittenAll).1 _ hpair hwritten
  rw [BoundField.isMarked, List.contains_iff_mem]
  exact hclass ▸ (List.of_mem_zip hc).2

/-- **An attribute that names the marker from the global namespace marks the field.** This holds in
any type, at any depth and under any directives, as long as the marker class is left alone. -/
theorem global_attributes_mark (trees : List SourceTree) (stubName : Option String)
    (hu : Marker.Undisturbed (build trees).model.table) :
    (∀ candidates resolver fields before mid later after,
      scan trees stubName = .ok candidates → Resolver.ofTrees trees before = .ok resolver mid →
      resolver.resolveFields candidates.fields later = .ok fields after →
      ∀ f ∈ (build trees).model.table.fields, (∃ r ∈ f.attributes, Marker.Written r) →
        ⟨f.owner, f.name, true⟩ ∈ fields) ∧
    ((∀ tree ∈ trees, tree.WellFormed) → ∃ candidates resolver fields,
      scan trees stubName = .ok candidates ∧ Traced.Gives (Resolver.ofTrees trees) (.ok resolver) ∧
      Traced.Gives (resolver.resolveFields candidates.fields) (.ok fields)) := by
  constructor
  · rintro candidates resolver fields before mid later after hscan hrun hfields f hf ⟨r, hr, hw⟩
    have hfound := ((Resolver.ofTrees_gives trees).eq_ok trivial hrun).1
    obtain ⟨b, hb, rfl, hmarked⟩ := Resolver.isMarked_of_written hfound hu hf hr hw
    have hresolved := ((resolver.resolveFields_gives candidates.fields).eq_ok trivial hfields).1
    rw [← Except.ok.inj hresolved]
    exact confirmed_mem_markedAmong hscan hfound hb hmarked
  · intro hwf
    obtain ⟨candidates, resolver, -, hscan, hresolver, -⟩ := resolveStubs_wellFormed stubName hwf
    exact ⟨candidates, resolver, _, hscan, hresolver, resolver.resolveFields_gives _⟩

namespace Sample

open Marker (node identifier)

/-- A field two classes deep, where the name of the marker's namespace is that of a class. -/
def shadowed : SourceTree :=
  ⟨.source 0, "shadowed.cs", "namespace N \x7b class PrintableFields ".toList ++
    "\x7b \x7d class A \x7b class B \x7b ".toList ++
    "[global::PrintableFields.".toList ++
    "Printable] int x; \x7d \x7d \x7d".toList, false,
    node (.other "compilation_unit") 0 108 none [
      node .namespaceDeclaration 0 108 none [
        identifier 10 11 (some .name),
        node .declarationList 12 108 (some (.other "body")) [
          node (.typeDeclaration .classType) 14 39 none [
            identifier 20 35 (some .name),
            node .declarationList 36 39 (some (.other "body")) []],
          node (.typeDeclaration .classType) 40 106 none [
            identifier 46 47 (some .name),
            node .declarationList 48 106 (some (.other "body")) [
              node (.typeDeclaration .classType) 50 104 none [
                identifier 56 57 (some .name),
                node .declarationList 58 104 (some (.other "body")) [
                  node .fieldDeclaration 60 102 none [
                    node .attributeList 60 95 none [
                      node .attributeUse 61 94 none [
                        node (.name .qualified) 61 94 (some .name) [
                          node (.name .aliasQualified) 61 84 (some .qualifier) [
                            identifier 61 67 (some .aliasName),
                            identifier 69 84 (some .name)],
                          identifier 85 94 (some .name)]]],
                    node .variableDeclaration 96 101 none [
                      node (.other "predefined_type") 96 99 (some .type) [],
                      node .variableDeclarator 100 101 none [
                        identifier 100 101 (some .name)]]]]]]]]]]⟩

theorem shadowed_undisturbed : Marker.Undisturbed (build [shadowed]).model.table := by
  refine ⟨?_, ?_, ?_⟩
  · decide +kernel
  · decide +kernel
  · decide +kernel

end Sample

theorem global_attributes_of_sample : Marker.Undisturbed (build [Sample.shadowed]).model.table ∧
    ∃ candidates resolver fields, scan [Sample.shadowed] none = .ok candidates ∧
      Traced.Gives (Resolver.ofTrees [Sample.shadowed]) (.ok resolver) ∧
      Traced.Gives (resolver.resolveFields candidates.fields) (.ok fields) ∧
      ⟨.nested (.top (.child .global "N") ⟨"A", 0⟩) ⟨"B", 0⟩, "x", true⟩ ∈ fields := by
  have hspec := global_attributes_mark [Sample.shadowed] none Sample.shadowed_undisturbed
  obtain ⟨candidates, resolver, fields, hscan, hresolver, hfields⟩ :=
    hspec.2 (by decide +kernel)
  obtain ⟨mid, hmid, -⟩ := hresolver [] trivial
  obtain ⟨after, hafter, -⟩ := hfields [] trivial
  have hfield : ∃ f ∈ (build [Sample.shadowed]).model.table.fields,
      (f.owner = .nested (.top (.child .global "N") ⟨"A", 0⟩) ⟨"B", 0⟩ ∧ f.name = "x") ∧
      ∃ r ∈ f.attributes, ∃ name ∈ ["Printable", "PrintableAttribute"],
        (r.site.tree.nameOf r.site.node).toOption =
          some ⟨some "global", [⟨"PrintableFields", 0⟩, ⟨name, 0⟩]⟩ := by
    decide +kernel
  obtain ⟨f, hf, ⟨howner, hname⟩, r, hr, name, hmem, hread⟩ := hfield
  have hwritten : Marker.Written r := by
    refine ⟨name, hmem, ?_⟩
    cases hn : r.site.tree.nameOf r.site.node with
    | error fault =>
      rw [hn] at hread
      cases hread
    | ok read =>
      rw [hn] at hread
      rw [Option.some.inj hread]
  have hmarked := hspec.1 candidates resolver fields [] mid [] after hscan hmid hafter f hf
    ⟨r, hr, hwritten⟩
  rw [howner, hname] at hmarked
  exact ⟨Sample.shadowed_undisturbed, candidates, resolver, fields, hscan, hresolver, hfields,
    hmarked⟩

end PrintGen
