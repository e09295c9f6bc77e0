import PrintGen.Proofs.AttributeNames
import PrintGen.Proofs.MarkerRecords
import PrintGen.Proofs.MarkedFields

/-!
# What attributes are bound to

Attributes are bound to attribute classes that their names can mean. The marker source brings no
alias, so where no directive has one, a marked field carries an attribute that is written as the
marker class or as its name without the suffix.
-/

namespace PrintGen

open Syntax Symbols

namespace Symbols

/-- Each field is dealt the classes of its own attributes. -/
theorem dealClasses_zip {fields : List FieldEntry} {classes : List (Option TypePath)}
    (h : classes.length = (fields.flatMap FieldEntry.attributes).length) :
    (dealClasses fields classes).flatMap (fun b => b.field.attributes.zip b.classes) =
      (fields.flatMap FieldEntry.attributes).zip classes := by
  induction fields generalizing classes with
  | nil => rfl
  | cons f rest ih =>
    rw [List.flatMap_cons, List.length_append] at h
    have hown : (classes.take f.attributes.length).length = f.attributes.length := by
      rw [List.length_take]
      omega
    have hrest : (classes.drop f.attributes.length).length =
        (rest.flatMap FieldEntry.attributes).length := by
      rw [List.length_drop]
      omega
    rw [dealClasses, List.flatMap_cons, ih hrest, List.flatMap_cons]
    simp only [hown, Nat.sub_self, List.replicate_zero, List.append_nil]
    rw [← List.zip_append hown.symm, List.take_append_drop]

theorem BoundField.pair_of_class {fields : List FieldEntry} {classes : List (Option TypePath)}
    {b : BoundField} (hb : b ∈ dealClasses fields classes) {c : Option TypePath}
    (hc : c ∈ b.classes) : ∃ r ∈ b.field.attributes, (r, c) ∈ b.field.attributes.zip b.classes := by
  have hsnd : (b.field.attributes.zip b.classes).map Prod.snd = b.classes :=
    List.map_snd_zip (dealClasses_length hb).le
  rw [← hsnd] at hc
  obtain ⟨⟨r, _⟩, hp, rfl⟩ := List.mem_map.mp hc
  exact ⟨r, (List.of_mem_zip hp).1, hp⟩

end Symbols

namespace Resolver

/-- The resolver of a well-formed compilation can be made in any state. -/
theorem ofTrees_returns {trees : List SourceTree} (hw : ∀ tree ∈ trees, tree.WellFormed)
    (before : Trace) : ∃ resolver after, ofTrees trees before = .ok resolver after ∧
      found trees = .ok resolver ∧ resolver.model = (build (trees ++ [Marker.tree])).model := by
  obtain ⟨resolver, hfound, -⟩ := found_wellFormed hw
  have hgives := ofTrees_gives trees
  rw [hfound] at hgives
  obtain ⟨after, hrun, -⟩ := hgives before trivial
  exact ⟨resolver, after, hrun, hfound, found_model hfound⟩

/-- Without a fault, every attribute has its class. -/
theorem compiled_classes {trees : List SourceTree} (h : (compiled trees).fault = none) :
    (compiled trees).model.classes.length = (compiled trees).model.table.attributes.length := by
  obtain ⟨_, hfault, hmodel⟩ := build_ok h
  rw [compiled, hmodel, bindTable_table]
  exact (bindTable_classes (A := fun _ _ => True) trivial (fun b _ => Yields.trivial _)
    fun r _ => Yields.trivial _).2 hfault

/-- What is declared besides the marker source is what the trees declare alone. -/
theorem compiled_table {trees : List SourceTree} (h : (compiled trees).fault = none) :
    DeclaresTrees trees .empty (build trees).model.table ∧ ∃ d,
      Marker.IsClass (build trees).model.table d ∧ (compiled trees).model.table =
        (build trees).model.table.after
          (Marker.opening (build trees).model.table ++ [.declaration d]) := by
  obtain ⟨mid, htrees, hmarker⟩ := compiled_ok h
  have hmid : (build trees).model.table = mid := by
    rw [build_table, declaredTable, declareTrees_iff.mpr htrees]
  rw [hmid]
  exact ⟨htrees, Marker.recorded hmarker⟩

/-- The marker source brings no alias. -/
theorem compiled_noAlias {trees : List SourceTree} (h : (compiled trees).fault = none)
    (hnone : ∀ u ∈ (build trees).model.table.usings, u.aliasName = none) :
    ∀ u ∈ (compiled trees).model.table.usings, u.aliasName = none := by
  obtain ⟨_, d, _, htable⟩ := compiled_table h
  intro u hu
  rw [htable, Table.after_usings] at hu
  rcases List.mem_append.mp hu with hold | hnew
  · exact hnone u hold
  · obtain rfl := List.mem_singleton.mp hnew
    rfl

end Resolver

theorem Marker.spells_type {written : String} (h : Spells written Marker.type.name) :
    written = "Printable" ∨ written = "PrintableAttribute" ∨ written = "@PrintableAttribute" := by
  rcases h with hsame | hsuffix | hmark
  · exact .inr (.inl hsame.symm)
  · refine .inl (String.toList_inj.mp ?_)
    have hlist : "Printable".toList ++ "Attribute".toList = written.toList ++ "Attribute".toList := by
      have hsame := congrArg String.toList hsuffix
      rw [String.toList_append] at hsame
      exact hsame
    exact (List.append_cancel_right hlist).symm
  · exact .inr (.inr hmark)

/-- **Attributes are bound soundly.** What an attribute is bound to is an attribute class that the
name can mean. Where no directive has an alias, a marked field has an attribute whose name ends in
a spelling of the marker class. -/
theorem attributes_bound_soundly (trees : List SourceTree) :
    (∀ r t,
      (r, some t) ∈ (build trees).model.table.attributes.zip (build trees).model.classes →
        Meant (build trees).model.table (build trees).model.isAttributeClass r t) ∧
    ∀ resolver before after, Resolver.ofTrees trees before = .ok resolver after →
      (∀ u ∈ (build trees).model.table.usings, u.aliasName = none) →
      ∀ f ∈ resolver.model.fields, resolver.isMarked f = true →
        ∃ r ∈ f.field.attributes, ∃ name last, r.site.tree.nameOf r.site.node = .ok name ∧
          name.segments.getLast? = some last ∧ last.arity = 0 ∧
          (last.name = "Printable" ∨ last.name = "PrintableAttribute" ∨
            last.name = "@PrintableAttribute") := by
  refine ⟨fun r t => build_meant, ?_⟩
  intro resolver before after hrun hnone f hf hmarked
  have hfound := ((Resolver.ofTrees_gives trees).eq_ok trivial hrun).1
  rw [Resolver.isMarked_eq hfound, BoundField.isMarked, List.contains_iff_mem] at hmarked
  obtain ⟨hfault, rfl⟩ := Resolver.found_eq hfound
  obtain ⟨r, hr, hpair⟩ := BoundField.pair_of_class hf hmarked
  have hall : (r, some Marker.type) ∈ (Resolver.compiled trees).model.table.attributes.zip
      (Resolver.compiled trees).model.classes := by
    rw [Table.attributes, ← dealClasses_zip (Resolver.compiled_classes hfault)]
    exact List.mem_flatMap_of_mem hf hpair
  obtain ⟨-, -, name, last, hname, hlast, hown | haliased⟩ := build_meant hall
  · exact ⟨r, hr, name, last, hname, hlast, hown.1.symm, Marker.spells_type hown.2⟩
  · obtain ⟨-, -, spelling, -, -, frame, outer, -, u, hu, halias, -⟩ := haliased
    have := Resolver.compiled_noAlias hfault hnone u (mem_usingsOf hu).1
    rw [this] at halias
    cases halias

theorem attributes_of_sample :
    (∃ r, (r, some Marker.type) ∈ (build (Sample.trees ++ [Marker.tree])).model.table.attributes.zip
        (build (Sample.trees ++ [Marker.tree])).model.classes ∧
      Meant (build (Sample.trees ++ [Marker.tree])).model.table
        (build (Sample.trees ++ [Marker.tree])).model.isAttributeClass r Marker.type) ∧
    ∃ resolver after f, Resolver.ofTrees Sample.trees [] = .ok resolver after ∧
      f ∈ resolver.model.fields ∧ resolver.isMarked f = true ∧
      ∃ r ∈ f.field.attributes, ∃ name last, r.site.tree.nameOf r.site.node = .ok name ∧
        name.segments.getLast? = some last ∧ last.arity = 0 ∧
        (last.name = "Printable" ∨ last.name = "PrintableAttribute" ∨
          last.name = "@PrintableAttribute") := by
  have hbound : some Marker.type ∈
      ((build (Sample.trees ++ [Marker.tree])).model.table.attributes.zip
        (build (Sample.trees ++ [Marker.tree])).model.classes).map Prod.snd := by
    rw [Marker.tree_parts]
    decide +kernel
  have hsome : (build (Sample.trees ++ [Marker.tree])).model.fields.any BoundField.isMarked =
      true := by
    rw [Marker.tree_parts]
    decide +kernel
  have hnone : ∀ u ∈ (build Sample.trees).model.table.usings, u.aliasName = none := by
    decide +kernel
  obtain ⟨⟨r, c⟩, hpair, hc⟩ := List.mem_map.mp hbound
  change c = some Marker.type at hc
  subst hc
  obtain ⟨resolver, after, hrun, hfound, hmodel⟩ := Resolver.ofTrees_returns Sample.wellFormed []
  obtain ⟨f, hf, hmarked⟩ := List.any_eq_true.mp hsome
  rw [← hmodel] at hf
  rw [← Resolver.isMarked_eq hfound] at hmarked
  exact ⟨⟨r, hpair, (attributes_bound_soundly (Sample.trees ++ [Marker.tree])).1 r _ hpair⟩,
    resolver, after, f, hrun, hf, hmarked,
    (attributes_bound_soundly Sample.trees).2 resolver [] after hrun hnone f hf hmarked⟩

end PrintGen
