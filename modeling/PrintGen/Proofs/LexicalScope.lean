import PrintGen.Proofs.LostLevels
import PrintGen.Proofs.QualifiedNames

/-!
# Using directives hold where they stand

A using directive that is not global is seen from the innermost block with a name around it, or from
its file if there is no such block. Without the directive, all bases and attributes outside are
bound as before, and so is the target of every other directive, in whatever order they stand.
-/

namespace PrintGen.Symbols

open Syntax

/-! ## Names outside -/

/-- A directive that is looked up first has the target that can be read. -/
theorem alone_targetOf (table : Table) (scope : Scope) (u : Using) :
    alone (targetOf table scope u) = table.readTarget scope u := by
  -- Nothing is kept yet, so the target is looked up; whether there is one decides the rest.
  have hkeep : ∀ target : Option Entity, resultOf (keepTarget u target .none) = (do
      if target.isNone then
        let _ ← u.tree.text u.target
      return target) := by
    intro target
    rw [keepTarget]
    cases target with
    | some e => rfl
    | none => cases u.tree.text u.target <;> rfl
  rw [alone, targetOf_unknown rfl, freshTarget, Table.readTarget]
  cases u.tree.nameOf u.target with
  | error fault => rfl
  | ok name => exact hkeep (usingTarget? table scope name)

section

variable {tree : SourceTree} {d : Node} {marks : Mark → Prop} {region : Site → Prop}
  {table other : Table} {trees others : List SourceTree}

theorem spared_of_unseen {seen : Scope}
    (h : ∀ mark, marks mark → ∀ frame ∈ seen, frame.mark ≠ mark) :
    Spared (LostFrom tree d marks) seen := by
  rintro u ⟨_, mark, hframe, hmark⟩
  refine ⟨by rw [hframe]; exact Option.some_ne_none _, fun frame hf hsame => ?_⟩
  exact h mark hmark frame hf (Option.some.inj (hsame.symm.trans hframe))

theorem DeclaresTrees.basesAlone_of_bound (hd : DeclaresTrees trees .empty table)
    (hf : (bindTable table).fault = none) : (table.basesAlone table.bases).2 = none := by
  cases hb : (table.basesAlone table.bases).2 with
  | none => rfl
  | some fault =>
    rw [(hd.bound_fault hb).2] at hf
    cases hf

/-- Without a fault, each attribute is bound to what it is bound to alone. -/
theorem DeclaresTrees.bound_fields (hd : DeclaresTrees trees .empty table)
    (hf : (bindTable table).fault = none) :
    (bindTable table).model.fields = table.fields.map fun f => ⟨f, f.attributes.map fun r =>
      (alone (bindAttribute table (bindTable table).model.isAttributeClass r)).toOption.join⟩ := by
  have hcounts : (bindTable table).model.isAttributeClass = isAttributeClass table
      ((table.bases.map BaseReference.type).zip (table.basesAlone table.bases).1) := by
    funext t
    rw [Model.isAttributeClass, bindTable_table, hd.bound_bases]
  have hall := hd.bound_classes (hd.basesAlone_of_bound hf)
  rw [hf, Table.attributesAlone, ← hcounts] at hall
  obtain ⟨hclasses, hnone⟩ := Prod.ext_iff.mp hall
  dsimp only at hclasses hnone
  rw [Model.fields, bindTable_table, hclasses, untilFault_results hnone.symm]
  exact dealClasses_map _ _

variable (h : Twin unmoved (LostFrom tree d marks) table other) (hm : Enclosed region marks table)
  (hd : DeclaresTrees trees .empty table) (hd' : DeclaresTrees others .empty other)
  (hf : (bindTable table).fault = none) (hf' : (bindTable other).fault = none)

include h hm hd hd' hf hf'

/-- A base outside is bound as before. -/
theorem lookup_base_outside {t : TypePath}
    (hout : ∀ b ∈ table.bases, b.type = t → ¬ region b.name.site) :
    (bindTable other).model.bases.lookup t = (bindTable table).model.bases.lookup t := by
  rw [hd.bound_bases, hd'.bound_bases, lookup_basesAlone (hd.basesAlone_of_bound hf),
    lookup_basesAlone (hd'.basesAlone_of_bound hf')]
  have hrel : Option.Rel (fun b b' => b'.type = b.type ∧ ReferenceTwin unmoved b.name b'.name)
      (table.base? t) (other.base? t) := forall₂_find? h.bases fun _ _ hb => by rw [hb.1]
  generalize hb : table.base? t = x at hrel ⊢
  generalize hb' : other.base? t = y at hrel ⊢
  cases hrel with
  | none => rfl
  | @some b b' hr =>
    have hmem : b ∈ table.bases := List.mem_of_find?_eq_some hb
    have htype : b.type = t := by simpa using List.find?_some hb
    have hspared : Spared (LostFrom tree d marks) b.name.scope :=
      spared_of_unseen fun mark hmark frame hframe hsame =>
        hout b hmem htype ((hm mark hmark).2.bases b hmem frame hframe hsame)
    rw [Option.map_some, Option.map_some, h.bindType_alone unmoved_oneToOne hd hd' hmem
      (List.mem_of_find?_eq_some hb') hr.2 hspared]

/-- If the same types are attribute classes, the attributes of a field outside are bound as
before. -/
theorem classes_outside (hc : (bindTable other).model.isAttributeClass =
      (bindTable table).model.isAttributeClass) :
    List.Forall₂ (fun f f' => FieldTwin unmoved f.field f'.field ∧
      (¬ region f.field.site → f'.classes = f.classes)) (bindTable table).model.fields
      (bindTable other).model.fields := by
  rw [hd.bound_fields hf, hd'.bound_fields hf', hc, List.forall₂_map_left_iff,
    List.forall₂_map_right_iff]
  refine forall₂_imp_mem h.fields fun f hmem f' hmem' hfield => ⟨hfield, fun hout => ?_⟩
  refine map_eq_of_forall₂ (forall₂_imp_mem hfield.attributes fun r hr r' hr' href => ?_)
  have hspared : Spared (LostFrom tree d marks) r.scope :=
    spared_of_unseen fun mark hmark frame hframe hsame =>
      hout ((hm mark hmark).2.attributes f hmem r hr frame hframe hsame)
  rw [h.bindAttribute_alone unmoved_oneToOne hd hd' _ hmem hmem' hr hr' href hspared]

end

/-! ## The compilation without a directive -/

namespace Sample

open Marker (node identifier)

/-- A name with one qualifier. -/
def dottedName (start stop : Nat) (label : Option Label) : Node :=
  node (.name .qualified) start stop label [
    identifier start (start + 1) (some .qualifier), identifier (start + 2) stop (some .name)]

/-- A directive that imports the namespace of the first block. -/
def blockImport : Node :=
  node .usingDirective 58 66 none [identifier 64 65 none]

/-- A directive whose target cannot be read: its text is half a character. -/
def unreadable : Node :=
  node .usingDirective 0 9 none [identifier 6 7 none]

/-- A block, with or without a name, that holds directives and a class with a base. -/
def importingBlock (name directives : List Node) : Node :=
  node .namespaceDeclaration 44 84 none (name ++ [
    node .declarationList 56 84 (some (.other "body")) (directives ++ [
      node (.typeDeclaration .classType) 67 82 none [
        identifier 73 74 (some .name),
        node .baseList 75 78 none [identifier 77 78 none],
        node .declarationList 79 82 (some (.other "body")) []]])])

/-- The nodes of a file with such a block, and with a class outside of it. -/
def importNodes (front name directives : List Node) (base : Node) : List Node :=
  front ++ [
    node .namespaceDeclaration 10 43 none [
      identifier 20 21 (some .name),
      node .declarationList 22 43 (some (.other "body")) [
        node (.typeDeclaration .classType) 24 41 none [
          identifier 30 31 (some .name),
          node .baseList 32 37 none [dottedName 34 37 none],
          node .declarationList 38 41 (some (.other "body")) []]]],
    importingBlock name directives,
    node (.typeDeclaration .classType) 85 115 none [
      identifier 91 92 (some .name),
      node .baseList 93 98 none [base],
      node .declarationList 99 115 (some (.other "body")) [
        node .fieldDeclaration 101 113 none [
          node .attributeList 101 106 none [
            node .attributeUse 102 105 none [dottedName 102 105 (some .name)]],
          node .variableDeclaration 107 112 none [
            node (.other "predefined_type") 107 110 (some .type) [],
            node .variableDeclarator 111 112 none [identifier 111 112 (some .name)]]]]]]

/-- The file with nothing in it that was parsed. -/
def unparsedFile : SourceTree :=
  ⟨.source 0, "import.cs",
    ("using é; namespace N \x7b class B : N.X \x7b \x7d \x7d namespace A \x7b using N; " ++
      "class C : B \x7b \x7d \x7d class D : N.B \x7b [N.B] int g; \x7d").toList, false,
    node (.other "compilation_unit") 0 115 none []⟩

def importer (front name directives : List Node) (base : Node) : SourceTree :=
  unparsedFile.withNodes (importNodes front name directives base)

/-- The name of the block. -/
def blockName : Node :=
  identifier 54 55 (some .name)

/-- The base of the class outside without its qualifier. -/
def simpleBase : Node :=
  identifier 97 98 none

/-- The file with a block that has a name. -/
def blocked (directives : List Node) : SourceTree :=
  importer [] [blockName] directives simpleBase

/-- A namespace without braces that is named by its first child with that label, whatever it is. -/
def fileNamespace (directives : List Node) : SourceTree :=
  ⟨.source 0, "file.cs", "namespace X; using N; class B \x7b \x7d".toList, false,
    node (.other "compilation_unit") 0 33 none [
      node .fileScopedNamespace 0 33 none (directives ++ [
        identifier 10 11 none,
        node (.typeDeclaration .classType) 22 33 none [
          identifier 28 29 (some .name),
          node .declarationList 30 33 (some (.other "body")) []]])]⟩

/-- A directive that the namespace is named by. -/
def naming : Node :=
  node .usingDirective 13 21 (some .name) [identifier 19 20 none]

/-- Another file, with a class that has a base in the namespace. -/
def elsewhere : SourceTree :=
  ⟨.source 1, "elsewhere.cs", "class D : X.B \x7b \x7d".toList, false,
    node (.other "compilation_unit") 0 17 none [
      node (.typeDeclaration .classType) 0 17 none [
        identifier 6 7 (some .name),
        node .baseList 8 13 none [dottedName 10 13 none],
        node .declarationList 14 17 (some (.other "body")) []]]⟩

def importedClass : TypePath :=
  .top (.child .global "N") ⟨"B", 0⟩

def insideClass : TypePath :=
  .top (.child .global "A") ⟨"C", 0⟩

def outsideClass : TypePath :=
  .top .global ⟨"D", 0⟩

end Sample

/-- **Using directives hold where they stand.** A directive that is not global is taken out of a
tree, and both compilations can be built. Then every type whose base list lies outside of the block
around the directive, or of its file if no block with a name is around it, has the base that it had.
If also the same types are attribute classes, all attributes of fields declared outside are bound to
the classes that they were bound to. All other directives stay, each with the target that it had. -/
theorem using_directive_lexical (trees others : List SourceTree) (tree : SourceTree) (d : Node)
    (block : Option Node) (nodes : List Node) (hd : d.kind = .usingDirective)
    (hg : d.hasChild .globalToken = false) (he : Erases tree d block tree.root.children nodes)
    (ho : List.Forall₂ (fun t t' => t' = t ∨ t = tree ∧ t' = tree.withNodes nodes) trees others)
    (hf : (build trees).fault = none) (hf' : (build others).fault = none) :
    (∀ t, (∀ b ∈ (build trees).model.table.bases, b.type = t → ¬ Within tree block b.name.site) →
      (build others).model.baseOf? t = (build trees).model.baseOf? t ∧
        (build others).model.hasExternalBase t = (build trees).model.hasExternalBase t) ∧
    ((∀ t, (build others).model.isAttributeClass t = (build trees).model.isAttributeClass t) →
      List.Forall₂ (fun f f' => f'.field.name = f.field.name ∧ f'.field.owner = f.field.owner ∧
          (¬ Within tree block f.field.site → f'.classes = f.classes))
        (build trees).model.fields (build others).model.fields) ∧
    Thinned (Says tree d) (fun u v => v.frame = u.frame ∧ v.aliasName = u.aliasName ∧
        v.isStatic = u.isStatic ∧ ∀ scope, alone (targetOf (build others).model.table scope v) =
          alone (targetOf (build trees).model.table scope u))
      (build trees).model.table.usings (build others).model.table.usings := by
  obtain ⟨hrun, hbound, hmodel⟩ := build_ok hf
  obtain ⟨hrun', hbound', hmodel'⟩ := build_ok hf'
  have hnone : Enclosed (Within tree block) (fun _ => False) .empty := fun _ hm => hm.elim
  obtain ⟨marks, hmarks, htwin⟩ :=
    Twin.declaresTrees_erased hd hg he ho twin_empty settled_empty hnone hrun hrun'
  refine ⟨fun t hout => ?_, fun hclasses => ?_, ?_⟩
  · have hlookup := lookup_base_outside htwin hmarks hrun hrun' hbound hbound' hout
    rw [← hmodel, ← hmodel'] at hlookup
    simp only [Model.baseOf?, Model.hasExternalBase, hlookup, and_self]
  · have hsame : (bindTable (build others).model.table).model.isAttributeClass =
        (bindTable (build trees).model.table).model.isAttributeClass := by
      rw [← hmodel, ← hmodel']
      exact funext hclasses
    have hfields := classes_outside htwin hmarks hrun hrun' hbound hbound' hsame
    rw [← hmodel, ← hmodel'] at hfields
    exact hfields.imp fun f f' h => ⟨h.1.name, h.1.owner, h.2⟩
  · refine htwin.usings.mono (fun u hu => hu.1) fun u v h => ?_
    refine ⟨h.frame_unmoved, h.aliasName, h.isStatic, fun scope => ?_⟩
    rw [alone_targetOf, alone_targetOf]
    exact (htwin.sameDirective h).target scope

/-- Without the directive, the class in the block loses its base; what stands outside of the block
is bound as before. -/
theorem using_directive_lexical_block :
    Erases (Sample.blocked [Sample.blockImport]) Sample.blockImport
        (some (Sample.importingBlock [Sample.blockName] [Sample.blockImport]))
        (Sample.blocked [Sample.blockImport]).root.children (Sample.blocked []).root.children ∧
      (build [Sample.blocked [Sample.blockImport]]).model.baseOf? Sample.insideClass =
        some Sample.importedClass ∧
      (build [Sample.blocked []]).model.baseOf? Sample.insideClass = none ∧
      (build [Sample.blocked []]).model.hasExternalBase Sample.outsideClass = true ∧
      (build [Sample.blocked []]).model.fields.map BoundField.classes =
        [[some Sample.importedClass]] := by
  have hblock : isBlock (Sample.blocked [Sample.blockImport])
      (Sample.importingBlock [Sample.blockName] [Sample.blockImport]) = true := by
    decide +kernel
  have he : Erases (Sample.blocked [Sample.blockImport]) Sample.blockImport
      (some (Sample.importingBlock [Sample.blockName] [Sample.blockImport]))
      (Sample.blocked [Sample.blockImport]).root.children (Sample.blocked []).root.children := by
    exact .later (.inBlock hblock .here)
  have hw : ∀ tree ∈ [Sample.blocked [Sample.blockImport], Sample.blocked []], tree.WellFormed := by
    decide +kernel
  rw [List.forall_mem_cons, List.forall_mem_singleton] at hw
  -- The block ends where the class outside has not begun.
  have hin : ∀ n ∈ (Sample.importingBlock [Sample.blockName] [Sample.blockImport]).preorder,
      n.stop ≤ 84 := by
    decide +kernel
  have hout : (∀ b ∈ (build [Sample.blocked [Sample.blockImport]]).model.table.bases,
        b.type = Sample.outsideClass → 84 < b.name.site.node.stop) ∧
      ∀ f ∈ (build [Sample.blocked [Sample.blockImport]]).model.fields,
        84 < f.field.site.node.stop := by
    decide +kernel
  have hclasses : (build [Sample.blocked []]).model.table.paths =
        (build [Sample.blocked [Sample.blockImport]]).model.table.paths ∧
      ∀ t ∈ (build [Sample.blocked []]).model.table.paths,
        (build [Sample.blocked []]).model.isAttributeClass t =
          (build [Sample.blocked [Sample.blockImport]]).model.isAttributeClass t := by
    decide +kernel
  have hbound : (build [Sample.blocked [Sample.blockImport]]).model.baseOf? Sample.insideClass =
        some Sample.importedClass ∧
      (build [Sample.blocked []]).model.baseOf? Sample.insideClass = none ∧
      (build [Sample.blocked [Sample.blockImport]]).model.hasExternalBase Sample.outsideClass =
        true ∧
      (build [Sample.blocked [Sample.blockImport]]).model.fields.map BoundField.classes =
        [[some Sample.importedClass]] := by
    decide +kernel
  have hfar : ∀ site : Site, 84 < site.node.stop → ¬ Within (Sample.blocked [Sample.blockImport])
      (some (Sample.importingBlock [Sample.blockName] [Sample.blockImport])) site :=
    fun site hlt hwithin => absurd (hin _ (hwithin.2 _ rfl)) (Nat.not_le.mpr hlt)
  have hfault : ∀ {tree : SourceTree}, tree.WellFormed → (build [tree]).fault = none :=
    fun hwell => (build_wellFormed (List.forall_mem_singleton.mpr hwell)).1
  have hreplaced : List.Forall₂ (fun t t' => t' = t ∨ t = Sample.blocked [Sample.blockImport] ∧
      t' = (Sample.blocked [Sample.blockImport]).withNodes (Sample.blocked []).root.children)
      [Sample.blocked [Sample.blockImport]] [Sample.blocked []] :=
    .cons (.inr ⟨rfl, (SourceTree.withNodes_withNodes _ _ _).symm⟩) .nil
  obtain ⟨hbases, hfields, -⟩ := using_directive_lexical _ _ _ _ _ _ rfl rfl he hreplaced
    (hfault hw.1) (hfault hw.2)
  have hcounts : ∀ t, (build [Sample.blocked []]).model.isAttributeClass t =
      (build [Sample.blocked [Sample.blockImport]]).model.isAttributeClass t := by
    intro t
    by_cases ht : t ∈ (build [Sample.blocked []]).model.table.paths
    · exact hclasses.2 t ht
    · -- A type that is not declared is no attribute class on either side.
      have hnot : ∀ {m : Model}, t ∉ m.table.paths → m.isAttributeClass t = false := fun hn =>
        Bool.eq_false_iff.mpr fun hc =>
          hn ((Table.hasType_iff_mem _ t).mp (hasType_of_isAttributeClass hc))
      rw [hnot ht, hnot (hclasses.1 ▸ ht)]
  refine ⟨he, hbound.1, hbound.2.1, ?_, ?_⟩
  · rw [(hbases _ fun b hb ht => hfar _ (hout.1 b hb ht)).2]
    exact hbound.2.2.1
  · rw [← hbound.2.2.2]
    exact map_eq_of_forall₂ (forall₂_imp_mem (hfields hcounts)
      fun f hf f' _ h => h.2.2 (hfar _ (hout.2 f hf)))

/-- Three ways for a directive to matter elsewhere. A block without a name keeps none to itself: the
base of a class outside is found with the help of its directive. Without a directive that was found
first, a base may be looked up through another one that cannot be read, so that nothing is bound any
more. And a directive may be what a namespace is named by. -/
theorem directives_matter_outside :
    ((∀ n ∈ (Sample.importingBlock [] [Sample.blockImport]).preorder, n.stop ≤ 84) ∧
      (∀ b ∈ (build [Sample.importer [] [] [Sample.blockImport]
          Sample.simpleBase]).model.table.bases,
        b.type = Sample.outsideClass → 84 < b.name.site.node.stop) ∧
      (build [Sample.importer [] [] [Sample.blockImport] Sample.simpleBase]).model.baseOf?
        Sample.outsideClass = some Sample.importedClass ∧
      (build [Sample.importer [] [] [] Sample.simpleBase]).model.baseOf?
        Sample.outsideClass = none) ∧
    ((build [Sample.importer [Sample.unreadable] [Sample.blockName] [Sample.blockImport]
        (Sample.dottedName 95 98 none)]).model.baseOf? Sample.outsideClass =
          some Sample.importedClass ∧
      (build [Sample.importer [Sample.unreadable] [Sample.blockName] []
        (Sample.dottedName 95 98 none)]).fault.map Fault.message =
          some (Fault.message .brokenText)) ∧
    ((build [Sample.fileNamespace [Sample.naming], Sample.elsewhere]).model.hasExternalBase
        Sample.outsideClass = true ∧
      (build [Sample.fileNamespace [], Sample.elsewhere]).model.hasExternalBase
        Sample.outsideClass = false) := by
  decide +kernel

end PrintGen.Symbols
