import PrintGen.Proofs.AttributeClasses
import PrintGen.Proofs.LexicalScope

/-!
# Which of several base lists decides

A class may be declared in several parts, and each part may begin its base list with a name. Only
one of these names is ever looked up: that of the first part that has one, in the order in which the
parts were declared. The other parts do not matter, so it depends on the order of the files whether
a class that names an outside base in one part and an interface in another is an attribute class.
-/

namespace PrintGen.Symbols

open Syntax (SourceTree)

/-! ## The first name -/

/-- The name that a declaration of a type begins its base list with. -/
def Site.baseName? (s : Site) : Option Site :=
  s.node.baseName?.map (Site.mk s.tree)

theorem Declaration.base?_site (d : Declaration) :
    d.base?.map (fun b => b.name.site) = d.site.baseName? := by
  rw [base?, Option.map_map]
  rfl

theorem declaredTable_base? (trees : List SourceTree) (t : TypePath) :
    ((declaredTable trees).base? t).map (fun b => b.name.site) =
      ((declaredTable trees).sitesOf t).findSome? Site.baseName? := by
  obtain ⟨es, hes⟩ := declaredTable_records trees
  have hbase : (declaredTable trees).base? t =
      (declarationsOf es t).findSome? Declaration.base? := by
    rw [hes, Table.after_base?]
    rfl
  have hsites : (declaredTable trees).sitesOf t = (declarationsOf es t).map Declaration.site := by
    rw [hes, Table.after_sitesOf]
    rfl
  rw [hbase, hsites, List.map_findSome?, List.findSome?_map]
  exact congrArg (List.findSome? · (declarationsOf es t)) (funext Declaration.base?_site)

/-! ## One step along a chain -/

theorem Model.isAttributeClass_step {m : Model} {t : TypePath} : m.isAttributeClass t = true ↔
    m.table.kindOf? t = some .classType ∧ (m.hasExternalBase t = true ∨
      ∃ base, m.baseOf? t = some base ∧ m.isAttributeClass base = true) := by
  rw [isAttributeClass, isAttributeClass_iff]
  constructor
  · rintro ⟨n, h⟩
    cases n with
    | zero => cases h
    | succ n =>
      obtain ⟨hkind, hexternal | ⟨base, hbase, hleaves⟩⟩ := leavesWithin_succ.mp h
      · exact ⟨hkind, .inl hexternal⟩
      · exact ⟨hkind, .inr ⟨base, hbase, isAttributeClass_iff.mpr ⟨n, hleaves⟩⟩⟩
  · rintro ⟨hkind, hexternal | ⟨base, hbase, hclass⟩⟩
    · exact ⟨1, leavesWithin_succ.mpr ⟨hkind, .inl hexternal⟩⟩
    · obtain ⟨n, hleaves⟩ := isAttributeClass_iff.mp hclass
      exact ⟨n + 1, leavesWithin_succ.mpr ⟨hkind, .inr ⟨base, hbase, hleaves⟩⟩⟩

/-! ## What the first name is bound to -/

section

variable {trees : List SourceTree} (h : (build trees).fault = none) {t : TypePath}
  {b : BaseReference} (hb : (build trees).model.table.base? t = some b)

include h

theorem lookup_builtBase (t : TypePath) : (build trees).model.bases.lookup t =
    ((build trees).model.table.base? t).map fun b =>
      (alone (bindType (build trees).model.table b.name)).toOption.join := by
  obtain ⟨hd, hf, hm⟩ := build_ok h
  rw [hm, hd.bound_bases, bindTable_table]
  exact lookup_basesAlone (hd.basesAlone_of_bound hf) t

include hb

theorem builtBase_ok : ∃ base, alone (bindType (build trees).model.table b.name) = .ok base := by
  obtain ⟨hd, hf, -⟩ := build_ok h
  exact hd.basesAlone_none_iff.mp (hd.basesAlone_of_bound hf) t b hb

theorem lookup_builtBase_iff {base : Option TypePath} :
    (build trees).model.bases.lookup t = some base ↔
      alone (bindType (build trees).model.table b.name) = .ok base := by
  obtain ⟨found, hfound⟩ := builtBase_ok h hb
  rw [lookup_builtBase h, hb, Option.map_some, hfound, Option.some_inj]
  exact ⟨fun heq => congrArg Except.ok heq, Except.ok.inj⟩

end

/-- **The first part of a class that names a base decides whether it is an attribute class.** Among
the declarations of a class, in order, the first one whose base list begins with a name gives the
reference that is bound, from inside the type around the class. The class is an attribute class
exactly if there is such a reference and it is bound to no type of the compilation or to an
attribute class. The names in the base lists of the other declarations have no part in it. -/
theorem first_base_name_decides (trees : List SourceTree) (h : (build trees).fault = none)
    (t : TypePath) (hkind : (build trees).model.table.kindOf? t = some .classType) :
    let m := (build trees).model
    (m.table.base? t).map (fun b => b.name.site) = (m.table.sitesOf t).findSome? Site.baseName? ∧
    (m.isAttributeClass t = true ↔ ∃ b, m.table.base? t = some b ∧
      (alone (bindType m.table b.name) = .ok none ∨
        ∃ base, alone (bindType m.table b.name) = .ok (some base) ∧
          m.isAttributeClass base = true)) := by
  intro m
  refine ⟨?_, ?_⟩
  · rw [build_table]
    exact declaredTable_base? trees t
  have hclass : m.table.kindOf? t = some .classType := hkind
  rw [Model.isAttributeClass_step, and_iff_right hclass]
  cases hb : m.table.base? t with
  | none =>
    have hlookup : m.bases.lookup t = none := by
      rw [lookup_builtBase h, hb]
      rfl
    simp [Model.hasExternalBase, Model.baseOf?, hlookup]
  | some b =>
    have hiff : ∀ base, m.bases.lookup t = some base ↔
        alone (bindType m.table b.name) = .ok base := fun base => lookup_builtBase_iff h hb
    have hexternal : m.hasExternalBase t = true ↔ alone (bindType m.table b.name) = .ok none := by
      rw [Model.hasExternalBase, decide_eq_true_iff]
      exact hiff none
    have hbase : ∀ base, m.baseOf? t = some base ↔
        alone (bindType m.table b.name) = .ok (some base) := by
      intro base
      rw [Model.baseOf?, Option.join_eq_some_iff]
      exact hiff (some base)
    simp only [hexternal, hbase, Option.some_inj, exists_eq_left']

namespace Sample

open Marker (node identifier)

/-- A file with an interface and a part of a class that names it. -/
def interfacePart : SourceTree :=
  ⟨.source 0, "a.cs", "interface I \x7b \x7d partial class A : I \x7b \x7d".toList, false,
    node (.other "compilation_unit") 0 39 none [
      node (.typeDeclaration .interfaceType) 0 15 none [
        identifier 10 11 (some .name),
        node .declarationList 12 15 (some (.other "body")) []],
      node (.typeDeclaration .classType) 16 39 none [
        node .modifier 16 23 none [],
        identifier 30 31 (some .name),
        node .baseList 32 35 none [identifier 34 35 none],
        node .declarationList 36 39 (some (.other "body")) []]]⟩

/-- A file with another part of the class, which names a base outside. -/
def attributePart : SourceTree :=
  ⟨.source 1, "b.cs", "partial class A : System.Attribute \x7b \x7d".toList, false,
    node (.other "compilation_unit") 0 38 none [
      node (.typeDeclaration .classType) 0 38 none [
        node .modifier 0 7 none [],
        identifier 14 15 (some .name),
        node .baseList 16 34 none [
          node (.name .qualified) 18 34 none [
            identifier 18 24 (some .qualifier), identifier 25 34 (some .name)]],
        node .declarationList 35 38 (some (.other "body")) []]]⟩

end Sample

/-- With the part that names the outside base in the first file, this file decides. -/
theorem attribute_part_first :
    let m := (build [Sample.attributePart, Sample.interfacePart]).model
    ((m.table.sitesOf (.top .global ⟨"A", 0⟩)).findSome? Site.baseName?).map
      (fun s => s.tree.path) = some "b.cs" ∧ m.isAttributeClass (.top .global ⟨"A", 0⟩) = true := by
  intro m
  have hfacts : (build [Sample.attributePart, Sample.interfacePart]).fault.isNone = true ∧
      m.table.kindOf? (.top .global ⟨"A", 0⟩) = some .classType ∧
      (m.table.base? (.top .global ⟨"A", 0⟩)).map (fun b =>
        (b.name.site.tree.path, (alone (bindType m.table b.name)).toOption)) =
        some ("b.cs", some none) := by
    decide +kernel
  obtain ⟨hfault, hkind, hbase⟩ := hfacts
  obtain ⟨b, hb, hbound⟩ := Option.map_eq_some_iff.mp hbase
  obtain ⟨hpath, hnone⟩ := Prod.mk.inj hbound
  obtain ⟨hsite, hclass⟩ := first_base_name_decides [Sample.attributePart, Sample.interfacePart]
    (Option.isNone_iff_eq_none.mp hfault) (.top .global ⟨"A", 0⟩) hkind
  refine ⟨?_, hclass.mpr ⟨b, hb, .inl (ok_of_toOption hnone)⟩⟩
  rw [← hsite, Option.map_map, hb]
  exact congrArg some hpath

/-- With the files in the other order the class is no attribute class, although the name in the
second file is still bound to nothing: the order of the files decides. -/
theorem attribute_part_ignored :
    let m := (build [Sample.interfacePart, Sample.attributePart]).model
    (∃ b, (build [Sample.attributePart, Sample.interfacePart]).model.table.base?
        (.top .global ⟨"A", 0⟩) = some b ∧ b.name.site.tree.path = "b.cs" ∧
      alone (bindType m.table b.name) = .ok none) ∧
    (m.table.sitesOf (.top .global ⟨"A", 0⟩)).map (fun s => s.tree.path) = ["a.cs", "b.cs"] ∧
    m.table.kindOf? (.top .global ⟨"A", 0⟩) = some .classType ∧
    m.isAttributeClass (.top .global ⟨"A", 0⟩) = false := by
  intro m
  have hfacts : ((build [Sample.attributePart, Sample.interfacePart]).model.table.base?
        (.top .global ⟨"A", 0⟩)).map (fun b =>
          (b.name.site.tree.path, (alone (bindType m.table b.name)).toOption)) =
        some ("b.cs", some none) ∧
      (m.table.sitesOf (.top .global ⟨"A", 0⟩)).map (fun s => s.tree.path) = ["a.cs", "b.cs"] ∧
      m.table.kindOf? (.top .global ⟨"A", 0⟩) = some .classType ∧
      m.isAttributeClass (.top .global ⟨"A", 0⟩) = false := by
    decide +kernel
  obtain ⟨hbase, hrest⟩ := hfacts
  obtain ⟨b, hb, hbound⟩ := Option.map_eq_some_iff.mp hbase
  obtain ⟨hpath, hnone⟩ := Prod.mk.inj hbound
  exact ⟨⟨b, hb, hpath, ok_of_toOption hnone⟩, hrest⟩

end PrintGen.Symbols
