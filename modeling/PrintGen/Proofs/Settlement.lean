import PrintGen.Proofs.Keys
import PrintGen.Proofs.StoppedPass

/-!
# Every group is settled once

A pass has two lists to settle, the types with marked fields and the types with a stub, and a type
may stand in both. A top-level type gets a fragment for each list that it stands in. A nested type
gets a report instead, if such reports are wanted: at its first declaration for its fields, at its
first stub for the stub. Nothing else comes out of a pass.
-/

namespace PrintGen

open Syntax Symbols

/-- The report that a nested type gets no generated code, at a place. -/
def Diagnostic.nestedAt (t : TypePath) (origin : String) (site : Site) : Diagnostic :=
  ⟨"PF0001", "'" ++ t.metadataName ++ "' is a nested type; " ++ origin ++
    " is only generated for top-level types", site.tree.path, some site.location.line,
    some site.location.column⟩

theorem Diagnostic.nestedType_at {site? : Option Site} {declarations : List Site} {site : Site}
    (h : site?.or declarations.head? = some site) (t : TypePath) (origin : String) :
    Diagnostic.nestedType t declarations origin site? = .nestedAt t origin site := by
  rw [Diagnostic.nestedType, h]
  rfl

/-- The reports for nested types, the fields before the stubs. -/
theorem skipped_itemsOf (s : Settings) (m : Model) (fields : List (ResolvedField TypePath))
    (stubs : List (StubGroup TypePath)) :
    skipped s (itemsOf s m fields stubs) = if s.reportNested.truthy then
      ((groupOwners fields).filter fun t => !t.isTopLevel).map (fun t =>
        .nestedType t (m.declarationsOf t) "Printable methods" none) ++
      (stubs.filter fun stub => !stub.owner.isTopLevel).map (fun stub =>
        .nestedType stub.owner (m.declarationsOf stub.owner) (stub.methodName ++ "()") stub.site)
    else [] := by
  have hnone : ∀ (b : Bool) (f : Fragment), (if b then some f else none).isNone = !b := by
    intro b f
    cases b <;> rfl
  rw [skipped, itemsOf, groupByOwner_eq, List.map_map, List.filter_append, List.map_append,
    List.filter_map, List.filter_map, List.map_map, List.map_map]
  simp only [Function.comp_def, fieldsItem, stubItem, hnone]

/-- A declared type has a first declaration. -/
theorem first_declaration {trees : List SourceTree} {r : Resolver}
    (hr : Resolver.found trees = .ok r) {t : TypePath} (ht : r.model.table.hasType t = true) :
    ∃ site, (r.model.declarationsOf t).head? = some site := by
  obtain ⟨hfault, rfl⟩ := Resolver.found_eq hr
  have hstored := (build_ok hfault).1.stored Stored.empty
  rw [Table.hasType_eq_isSome] at ht
  obtain ⟨e, he⟩ := Option.isSome_iff_exists.mp ht
  have hne := (hstored.entries e (List.mem_of_find?_eq_some he)).2
  refine ⟨e.declarations.head hne, ?_⟩
  rw [Model.declarationsOf, he]
  exact List.head?_eq_some_head hne

namespace Stages

variable {s : Settings} {trees : List SourceTree} {r : Resolver} {candidates : Candidates}
  {fields : List (ResolvedField TypePath)} {stubs : List (StubGroup TypePath)}

/-- A type with a stub is known by the first stub that it has. -/
theorem first_stub (h : Stages s trees r candidates fields stubs) {stub : StubGroup TypePath}
    (hs : stub ∈ stubs) :
    ∃ q, (stubPlaces trees s.stubName.string?).find?
        (fun q => r.model.table.ownerAt? q = some stub.owner) = some q ∧
      Signed stub q.1 q.2.node := by
  obtain ⟨_, rfl⟩ := scan_ok_iff.mp h.scanned
  exact ((groups_of_places h.signed).2 stub hs).2

/-- Whether nested types are reported does not matter for the stages. -/
theorem reporting (h : Stages s trees r candidates fields stubs) (v : Json) :
    Stages { s with reportNested := v } trees r candidates fields stubs :=
  ⟨h.scanned, h.resolver, h.marked, h.stubs⟩

end Stages

namespace Sample

open Marker (node identifier)

/-- A class with one letter for its name, a marked field, a stub and more members. The name of the
field has the given width. -/
def classWithBoth (start stop width : Nat) (more : List Node) : Node :=
  node (.typeDeclaration .classType) start stop none [
    node .modifier start (start + 7) none [],
    identifier (start + 14) (start + 15) (some .name),
    node .declarationList (start + 16) stop (some (.other "body")) ([
      node .fieldDeclaration (start + 18) (start + 51 + width) none [
        node .attributeList (start + 18) (start + 45) none [
          node .attributeUse (start + 19) (start + 44) none [
            node (.name .qualified) (start + 19) (start + 44) (some .name) [
              identifier (start + 19) (start + 34) (some .qualifier),
              identifier (start + 35) (start + 44) (some .name)]]],
        node .variableDeclaration (start + 46) (start + 50 + width) none [
          node (.other "predefined_type") (start + 46) (start + 49) (some .type) [],
          node .variableDeclarator (start + 50) (start + 50 + width) none [
            identifier (start + 50) (start + 50 + width) (some .name)]]],
      node .methodDeclaration (start + 52 + width) (start + 82 + width) none [
        node .modifier (start + 52 + width) (start + 59 + width) none [],
        node (.other "predefined_type") (start + 60 + width) (start + 64 + width)
          (some .returns) [],
        identifier (start + 65 + width) (start + 79 + width) (some .name),
        node .parameterList (start + 79 + width) (start + 81 + width) (some .parameters) []]] ++
      more)]

/-- A class inside of another one, both with a marked field and a stub. -/
def nesting : SourceTree :=
  ⟨.source 0, "nesting.cs", "partial class A \x7b [PrintableFields.".toList ++
    "Printable] int x; partial void ".toList ++
    "PrintAllFields(); partial class B ".toList ++
    "\x7b [PrintableFields.Printable] int ".toList ++
    "y; partial void PrintAllFields(); \x7d \x7d".toList, false,
    node (.other "compilation_unit") 0 171 none [
      classWithBoth 0 171 1 [classWithBoth 84 169 1 []]]⟩

def outerClass : TypePath :=
  .top .global ⟨"A", 0⟩

def innerClass : TypePath :=
  .nested outerClass ⟨"B", 0⟩

end Sample

/-- **Every group is settled once, and nested types get no code.** The fragments of a pass are the
marker, one for each top-level type with marked fields and one for each top-level type with a stub.
The reports are one for each nested type with marked fields and one for each nested type with a
stub, or none if they are not wanted. Types come in the order of their first marked field and of
their first stub, and the fragments do not depend on whether reports are wanted. -/
theorem groups_settled_once {s : Settings} {trees : List SourceTree} {g : Generated}
    {before after : Trace} (h : generate s trees before = .ok g after) :
    ∃ (r : Resolver) (candidates : Candidates) (fields : List (ResolvedField TypePath))
      (stubs : List (StubGroup TypePath)) (ofFields ofStubs : List Diagnostic),
      Stages s trees r candidates fields stubs ∧
      (∀ t, t ∈ groupOwners fields ↔ ∃ f ∈ r.model.fieldsOf t, f.isMarked = true) ∧
      ((trees.map SourceTree.id).Nodup →
        (∀ tree ∈ trees, KeysDistinct (fun kind => kind = .fieldDeclaration) tree) →
        fields = (r.model.fields.filter BoundField.isMarked).map Resolver.confirmed) ∧
      stubs.map StubGroup.owner =
        ((stubPlaces trees s.stubName.string?).filterMap r.model.table.ownerAt?).eraseDups ∧
      g.fragments = Marker.fragment ::
        (((groupOwners fields).filter TypePath.isTopLevel).map fun t =>
          methodsFragment s r.model (stemOf fields stubs t) t
            ((groupOf fields t).map ResolvedField.name)) ++
        ((stubs.filter fun stub => stub.owner.isTopLevel).map fun stub =>
          stubFragment s r.model (stemOf fields stubs stub.owner) stub) ∧
      g.diagnostics = (if s.reportNested.truthy then ofFields ++ ofStubs else []) ∧
      List.Forall₂ (fun t d => ∃ site, (r.model.declarationsOf t).head? = some site ∧
          d = .nestedAt t "Printable methods" site)
        ((groupOwners fields).filter fun t => !t.isTopLevel) ofFields ∧
      List.Forall₂ (fun stub d => ∃ q, (stubPlaces trees s.stubName.string?).find?
            (fun q => r.model.table.ownerAt? q = some stub.owner) = some q ∧
          d = .nestedAt stub.owner (stub.methodName ++ "()") ⟨q.1, q.2.node⟩)
        (stubs.filter fun stub => !stub.owner.isTopLevel) ofStubs ∧
      ∀ v, ∃ g' after', generate { s with reportNested := v } trees before = .ok g' after' ∧
        g'.fragments = g.fragments := by
  obtain ⟨r, candidates, fields, stubs, hst, hkeys, hg⟩ := generate_ok h
  have hdiagnostics : g.diagnostics = skipped s (itemsOf s r.model fields stubs) := by
    have hrun := generated_of_generate h
    rw [hst.returns hkeys] at hrun
    cases hrun
    rfl
  rw [skipped_itemsOf] at hdiagnostics
  refine ⟨r, candidates, fields, stubs, _, _, hst, hst.mem_owners, ?_, hst.groups.1, hg,
    hdiagnostics, ?_, ?_, ?_⟩
  · intro hids hdistinct
    exact hst.fields_eq.trans (markedAmong_eq hids hdistinct hst.scanned hst.found)
  · rw [List.forall₂_map_right_iff, List.forall₂_same]
    intro t ht
    obtain ⟨f, hf, _⟩ := (hst.mem_owners t).mp (List.mem_filter.mp ht).1
    obtain ⟨site, hsite⟩ := first_declaration hst.found (hasType_of_field hst.found hf)
    exact ⟨site, hsite, Diagnostic.nestedType_at (by rw [Option.none_or, hsite]) _ _⟩
  · rw [List.forall₂_map_right_iff, List.forall₂_same]
    intro stub hstub
    obtain ⟨q, hq, hsigned⟩ := hst.first_stub (List.mem_filter.mp hstub).1
    exact ⟨q, hq, Diagnostic.nestedType_at (by rw [hsigned.site, Option.some_or]) _ _⟩
  · intro v
    obtain ⟨g', after', hrun, hfragments⟩ := (hst.reporting v).runs hkeys before
    exact ⟨g', after', hrun, hfragments.trans hg.symm⟩

theorem nested_class_reported : ∃ (g : Generated) (after : Trace) (site : Site),
    generate .default [Sample.nesting] [] = .ok g after ∧
    g.keys = [Marker.metadataName, "A.Printables", "A.PrintAllFields"] ∧
    g.diagnostics.map (fun d => (d.line, d.column)) =
      [(some 1, some 85), (some 1, some 138)] ∧
    g.diagnostics.head? = some (.nestedAt Sample.innerClass "Printable methods" site) := by
  have hsample : (generated .default [Sample.nesting]).toOption.map (fun g =>
        (g.keys, g.diagnostics.map fun d => (d.line, d.column))) =
      some ([Marker.metadataName, "A.Printables", "A.PrintAllFields"],
        [(some 1, some 85), (some 1, some 138)]) ∧
      (((Resolver.compiled [Sample.nesting]).model.fields.filter BoundField.isMarked).map
        fun f => f.field.owner).eraseDups = [Sample.outerClass, Sample.innerClass] := by
    rw [generated, Resolver.found, Resolver.compiled, Marker.tree_parts]
    decide +kernel
  obtain ⟨hrun, howners⟩ := hsample
  have hsome : (generated .default [Sample.nesting]).toOption.isSome = true := by
    rw [← Option.isSome_map, hrun]
    rfl
  obtain ⟨g, after, hg⟩ := generate_of_generated hsome []
  rw [generated_of_generate hg] at hrun
  obtain ⟨hkeys, hplaces⟩ := Prod.mk.inj (Option.some.inj hrun)
  obtain ⟨r, _, fields, _, ofFields, _, hst, _, hfields, _, _, hdiagnostics, hreports, _⟩ :=
    groups_settled_once hg
  rw [hfields (by decide) (by decide +kernel), groupOwners_confirmed,
    Resolver.found_model hst.found, howners] at hreports
  obtain ⟨d, _, ⟨site, _, rfl⟩, _, rfl⟩ := List.forall₂_cons_left_iff.mp hreports
  exact ⟨g, after, site, hg, hkeys, hplaces, by rw [hdiagnostics]; rfl⟩

end PrintGen
