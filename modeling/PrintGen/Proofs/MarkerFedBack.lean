import PrintGen.Proofs.FedMarker
import PrintGen.Proofs.PairedPass

/-!
# A pass over the marker source

The marker source that a pass emits may be handed to the next pass among its trees. Nothing in it is
a candidate, so all that matters is that names are bound as before. Where the copy comes last, both
passes also look the bases up in the same order; in another place the base of the marker class is
looked up earlier, which can only be told if that lookup fails.
-/

namespace PrintGen

open Syntax Symbols

/-! ## Scanning a copy -/

namespace Marker

theorem root_kinds : ∀ o ∈ root.occurrences,
    o.node.kind ≠ .methodDeclaration ∧ o.node.isAnnotatedField = false := by
  decide +kernel

variable {copy : SourceTree} (hc : IsCopy copy)

include hc

/-- There is no candidate in a copy. -/
theorem copy_annotatedFields : copy.annotatedFields = [] := by
  have hnone : copy.occurrences.filter (fun o => o.node.isAnnotatedField) = [] := by
    rw [SourceTree.occurrences, hc.root, List.filter_eq_nil_iff]
    exact fun o ho => by simp [(root_kinds o ho).2]
  rw [SourceTree.annotatedFields, hnone, List.map_nil]

theorem copy_stubs (stubName : Option String) : copy.stubs stubName = .ok [] := by
  have hfalse : ∀ o ∈ copy.occurrences, copy.isStub stubName o.node = .ok false := by
    intro o ho
    rw [SourceTree.occurrences, hc.root] at ho
    rw [SourceTree.isStub, if_neg (root_kinds o ho).1]
    rfl
  have hnone : copy.occurrences.filterM (fun o => copy.isStub stubName o.node) = .ok [] := by
    refine filterM_ok_iff.mpr ⟨fun o ho => ⟨false, hfalse o ho⟩, ?_⟩
    refine (List.filter_eq_nil_iff.mpr fun o ho => ?_).symm
    simp [hfalse o ho, Except.toOption]
  rw [SourceTree.stubs, hnone]
  rfl

theorem scan_copy (pre post : List SourceTree) (stubName : Option String) :
    scan (pre ++ copy :: post) stubName = scan (pre ++ post) stubName := by
  have hfields : (pre ++ copy :: post).flatMap SourceTree.annotatedFields =
      (pre ++ post).flatMap SourceTree.annotatedFields := by
    rw [List.flatMap_append, List.flatMap_cons, copy_annotatedFields hc, List.nil_append,
      List.flatMap_append]
  rw [scan, scan, hfields, List.mapM_append, List.mapM_append, List.mapM_cons, copy_stubs hc]
  simp only [bind_assoc, pure_bind, except_ok_bind, List.flatten_append, List.flatten_cons,
    List.nil_append]

end Marker

/-- Every stub was found in one of the trees. -/
theorem stub_scanned {trees : List SourceTree} {stubName : Option String} {candidates : Candidates}
    (h : scan trees stubName = .ok candidates) {c : Candidate} (hc : c ∈ candidates.stubs) :
    c.tree ∈ trees ∧ ∃ found, c.tree.stubs stubName = .ok found ∧ c ∈ found := by
  obtain ⟨stubs, hstubs, h⟩ := except_bind_ok.mp h
  cases h
  obtain ⟨found, hfound, hmem⟩ := List.mem_flatten.mp hc
  obtain ⟨tree, htree, hscan⟩ := mem_of_mapM hstubs hfound
  obtain ⟨os, -, hos⟩ := except_bind_ok.mp hscan
  have hsame : c.tree = tree := by
    cases hos
    obtain ⟨o, -, rfl⟩ := List.mem_map.mp hmem
    rfl
  exact ⟨hsame ▸ htree, found, hsame ▸ hscan, hmem⟩

/-! ## One pass without the copy and one with it -/

namespace Marker.Fed

variable {copy : SourceTree} {start : Table} {es : List Event} {d own own' : Declaration}
  (h : Fed copy start es d own own')

include h

theorem headers {m m' : Model} (hm : m.table = without start es own)
    (hm' : m'.table = fed copy start es d own') (t : TypePath) : m'.header t = m.header t := by
  have hrel := h.entries t
  rw [Model.header, Model.header, hm, hm']
  generalize (without start es own).entryOf? t = e at hrel ⊢
  generalize (fed copy start es d own').entryOf? t = e' at hrel ⊢
  cases hrel with
  | none => rfl
  | some hsame => exact congrArg₂ (TypeHeader.mk t) hsame.1 hsame.2.1

/-- The first declaration of a type that is known before the marker source stays the first one. -/
theorem first_declaration {m m' : Model} (hm : m.table = without start es own)
    (hm' : m'.table = fed copy start es d own') {t : TypePath}
    (ht : (start.after es).hasType t = true) :
    (m'.declarationsOf t).head? = (m.declarationsOf t).head? := by
  have hrel := h.entries t
  rw [Model.declarationsOf, Model.declarationsOf, hm, hm']
  generalize (without start es own).entryOf? t = e at hrel ⊢
  generalize (fed copy start es d own').entryOf? t = e' at hrel ⊢
  cases hrel with
  | none => rfl
  | some hsame => exact hsame.2.2 (.inr ht)

/-- **With the copy, a pass finds the same.** -/
theorem pairedPass (howners : OwnersDeclared (start.after es)) {r r' : Resolver}
    (hm : r.model.table = without start es own) (hm' : r'.model.table = fed copy start es d own')
    (hclasses : r'.model.classes = r.model.classes) (hmarker : r'.marker = r.marker)
    {candidates : Candidates}
    (hstubs : ∀ c ∈ candidates.stubs, c.tree.id ≠ copy.id ∧ c.tree.id ≠ .marker) :
    PairedPass (fun a b => b = a) r r' candidates candidates := by
  have hfields : r'.model.fields = r.model.fields := by
    rw [Model.fields, Model.fields, hclasses, hm, hm', without_fields, fed_fields]
  refine ⟨?_, ?_, ?_, h.headers hm hm', ?_⟩
  · have hmarked : r'.isMarked = r.isMarked := by
      funext f
      rw [Resolver.isMarked, Resolver.isMarked, hmarker]
    simp only [Resolver.markedAmong, Model.declaredFields, hfields, hmarked]
  · intro f hf origin
    obtain ⟨b, hb, rfl⟩ := List.mem_map.mp hf
    obtain ⟨c, -, hmem⟩ := List.mem_flatMap.mp (List.mem_filter.mp hb).1
    have hfield : b.field ∈ (start.after es).fields := by
      rw [← without_fields start es own, ← hm, ← Model.fields_field]
      exact List.mem_map_of_mem (List.mem_filter.mp hmem).1
    have hfirst : (r'.model.declarationsOf (Resolver.confirmed b).owner).head? =
        (r.model.declarationsOf (Resolver.confirmed b).owner).head? :=
      h.first_declaration hm hm' (howners b.field hfield)
    rw [Diagnostic.nestedType, Diagnostic.nestedType, hfirst]
  · refine List.forall₂_same.mpr fun c hc => ⟨?_, rfl, rfl, rfl, fun _ _ _ _ => rfl⟩
    obtain ⟨hcopy, hmark⟩ := hstubs c hc
    rw [Model.containingType?, Model.containingType?, hm, hm']
    cases c.owner with
    | none => rfl
    | some node => exact (h.nodes hcopy hmark).1
  · intro t
    rw [Model.printableFields, Model.printableFields, Table.fieldsOf, Table.fieldsOf, hm, hm',
      without_fields, fed_fields]

/-- **With the copy, a pass comes to the same,** or both stop because of a base. -/
theorem generated_eq {pre post : List SourceTree} (howners : OwnersDeclared (start.after es))
    (hids : ∀ t ∈ pre ++ post, t.id ≠ .marker ∧ (t.id = copy.id → t = copy))
    (hd : DeclaresTrees ((pre ++ post) ++ [tree]) .empty (without start es own))
    (hd' : DeclaresTrees ((pre ++ copy :: post) ++ [tree]) .empty (fed copy start es d own'))
    (s : Settings) :
    generated s (pre ++ copy :: post) = generated s (pre ++ post) ∨ ¬ Unhindered start es own ∧
      ∃ fault fault', generated s (pre ++ copy :: post) = .error fault ∧
        generated s (pre ++ post) = .error fault' := by
  rw [generated_eq_outcome, generated_eq_outcome, scan_copy h.isCopy]
  cases hscan : scan (pre ++ post) s.stubName.string? with
  | error fault => exact .inl rfl
  | ok candidates =>
    have hstubs : ∀ c ∈ candidates.stubs, c.tree.id ≠ copy.id ∧ c.tree.id ≠ .marker := by
      intro c hc
      obtain ⟨htree, found, hfound, hmem⟩ := stub_scanned hscan hc
      refine ⟨fun hid => ?_, (hids c.tree htree).1⟩
      rw [(hids c.tree htree).2 hid, copy_stubs h.isCopy] at hfound
      cases hfound
      cases hmem
    obtain ⟨hfault, hmodel⟩ := build_declared hd
    obtain ⟨hfault', hmodel'⟩ := build_declared hd'
    simp only [except_ok_bind, Resolver.found, Resolver.compiled, hfault, hfault', hmodel, hmodel']
    cases hbase : ((without start es own).basesAlone (without start es own).bases).2 with
    | none =>
      obtain ⟨-, hclasses, hsame⟩ := (h.counterparts hd hd').bindTable hd hd' hbase
      rw [hsame]
      cases (bindTable (without start es own)).fault with
      | some fault => exact .inl rfl
      | none =>
        have hpass : PairedPass (fun a b => b = a)
            ⟨(bindTable (without start es own)).model, some type⟩
            ⟨(bindTable (fed copy start es d own')).model, some type⟩ candidates candidates := by
          refine h.pairedPass howners ?_ ?_ hclasses ?_ hstubs
          · exact bindTable_table _
          · exact bindTable_table _
          · rfl
        exact .inl ((hpass.outcome s).mono fun g g' hg => hg.eq).eq
    | some fault =>
      have hboth := (h.counterparts hd hd').basesAlone_none hd hd'
      cases hbase' : ((fed copy start es d own').basesAlone (fed copy start es d own').bases).2 with
      | none =>
        rw [hboth.mp hbase'] at hbase
        cases hbase
      | some fault' =>
        rw [(hd.bound_fault hbase).2, (hd'.bound_fault hbase').2]
        by_cases ho : Unhindered start es own
        · have hsame := h.basesAlone_fault hd hd' ho
          rw [hbase, hbase'] at hsame
          exact .inl (by rw [Option.some.inj hsame])
        · exact .inr ⟨ho, fault', fault, rfl, rfl⟩

end Marker.Fed

/-! ## Copies in any place -/

/-- A type that a table does not have was not declared on the way to it. -/
theorem not_declared {table : Table} {es : List Event} {t : TypePath}
    (h : (table.after es).hasType t = false) : ∀ d ∈ declarationsIn es, d.path ≠ t := by
  rintro d hd rfl
  rw [(table.after_hasType es d.path).mpr (.inr (List.mem_map_of_mem hd))] at h
  cases h

section

variable {copy : SourceTree} (hc : Marker.IsCopy copy) (hid : copy.id ≠ .marker)

include hc

/-- Passes that stop while trees are declared stop at the same fault. -/
theorem generated_stopped {pre post : List SourceTree} {fault : Fault} {table table' : Table}
    (h : declareTrees (pre ++ post) .empty = .error fault table)
    (h' : declareTrees (pre ++ copy :: post) .empty = .error fault table') (s : Settings) :
    generated s (pre ++ copy :: post) = generated s (pre ++ post) := by
  rw [generated_eq_outcome, generated_eq_outcome, Marker.scan_copy hc,
    Resolver.found_stopped (declareTrees_stopped h _),
    Resolver.found_stopped (declareTrees_stopped h' _)]

include hid

/-- **A copy that comes last makes no difference.** -/
theorem generated_append_copy {trees : List SourceTree}
    (hids : ∀ t ∈ trees, t.id ≠ .marker ∧ (t.id = copy.id → t = copy)) (s : Settings) :
    generated s (trees ++ [copy]) = generated s trees := by
  rw [← List.append_nil trees] at hids ⊢
  rw [List.append_assoc, List.nil_append]
  cases hr : declareTrees trees .empty with
  | error fault table =>
    exact generated_stopped hc (declareTrees_stopped hr _) (declareTrees_stopped hr _) s
  | ok u start =>
    have hpre := declareTrees_iff.mp hr
    obtain ⟨d, own, own', hfed, hd, hd'⟩ := Marker.fed_of_declared hc hid
      (fun t ht => (hids t ht).1) (List.forall_mem_nil _) hpre .nil (List.forall_mem_nil _)
      (fun _ _ _ => .nil) (List.forall_mem_nil _)
    rcases hfed.generated_eq (hpre.ownersDeclared ownersDeclared_empty) hids hd hd' s with
      hsame | ⟨hlate, -⟩
    · exact hsame
    · exact absurd (fun _ => .inl rfl) hlate

/-- **A copy in any place makes no difference if no other tree declares the marker class,** as long
as passes return. Only the fault of a failing pass may be another one, and that takes a global
directive that cannot be read. -/
theorem generated_insert_copy {pre post : List SourceTree}
    (hids : ∀ t ∈ pre ++ post, t.id ≠ .marker ∧ t.id ≠ copy.id)
    (htype : (build (pre ++ post)).model.table.hasType Marker.type = false) (s : Settings) :
    generated s (pre ++ copy :: post) = generated s (pre ++ post) ∨
      (∃ u ∈ (build (pre ++ post)).model.table.usings,
        u.frame = none ∧ ¬ u.tree.Reads u.target) ∧
      ∃ fault fault', generated s (pre ++ copy :: post) = .error fault ∧
        generated s (pre ++ post) = .error fault' := by
  have hnew : ∀ t ∈ post, t.id ≠ copy.id := fun t ht => (hids t (List.mem_append_right _ ht)).2
  rw [build_table, declaredTable_eq] at htype ⊢
  cases hr : declareTrees pre .empty with
  | error fault table =>
    exact .inl (generated_stopped hc (declareTrees_stopped hr _) (declareTrees_stopped hr _) s)
  | ok u start =>
    have hpre := declareTrees_iff.mp hr
    rw [declareTrees_after hpre] at htype ⊢
    cases hr' : declareTrees post start with
    | error fault table =>
      obtain ⟨es, hstate, -, hagain⟩ := declareTrees_repeats post start
      rw [hstate] at htype
      obtain ⟨d, hd, hcopied⟩ := Marker.declares_copyRecords hc start
      obtain ⟨hranks, hkinds⟩ := hd.fits hnew (not_declared htype)
      have hrun := hagain _ hranks hkinds
      have hstop : declareTrees (pre ++ post) .empty = .error fault table := by
        rw [declareTrees_after hpre, hr']
      rw [hr', ← declareTrees_after (hpre.append (.cons hcopied .nil)), List.append_assoc] at hrun
      exact .inl (generated_stopped hc hstop hrun s)
    | ok u last =>
      have hpost := declareTrees_iff.mp hr'
      obtain ⟨es, rfl, hsent, hagain⟩ := hpost.replays
      have hall := (hpre.append hpost).ownersDeclared ownersDeclared_empty
      rw [hr'] at htype
      obtain ⟨d, own, own', hfed, hd, hd'⟩ := Marker.fed_of_declared hc hid
        (fun t ht => (hids t ht).1) hnew hpre hpost hsent hagain (not_declared htype)
      rcases hfed.generated_eq hall (fun t ht => ⟨(hids t ht).1, fun he => absurd he (hids t ht).2⟩)
        hd hd' s with hsame | ⟨hlate, hfaults⟩
      · exact .inl hsame
      · refine .inr ⟨?_, hfaults⟩
        by_contra hnone
        refine hlate (hfed.unhindered hd fun u hu hframe => ?_)
        by_contra hread
        exact hnone ⟨u, hu, hframe, hread⟩

end

namespace Sample

/-! The marker source as a file of its own, and a file with two names that cannot be read: the
target of a global directive covers half a character, and the base of a class lacks its parts. -/

open Marker (node identifier)

def copy : SourceTree :=
  ⟨.source 2, "copy.cs", Marker.source.toList, false, Marker.root⟩

theorem copy_isCopy : Marker.IsCopy copy := by
  have h : ∀ id path content hasError root,
      (SourceTree.mk id path content hasError root).content = content := fun _ _ _ _ _ => rfl
  exact ⟨h (.source 2) "copy.cs" Marker.source.toList false Marker.root, rfl⟩

/-- The copy with its text in parts. -/
theorem copy_parts : copy = ⟨.source 2, "copy.cs",
    "using System;\n\nnamespace PrintableFields\n\x7b\n".toList ++
    ("    [AttributeUsage(AttributeTargets.Field, Inherited = false, AllowMultiple = false)]\n".toList ++
    ("    sealed class PrintableAttribute : Attribute\n    \x7b\n".toList ++
    "        public PrintableAttribute()\n        \x7b\n        \x7d\n    \x7d\n\x7d\n".toList)),
    false, Marker.root⟩ := by
  rw [copy, Marker.source_toList]

def damaged : SourceTree :=
  ⟨.source 0, "damaged.cs", "global using é; class C : A.B \x7b \x7d".toList, false,
    node (.other "compilation_unit") 0 34 none [
      node .usingDirective 0 16 none [
        node .globalToken 0 6 none [],
        identifier 13 14 none],
      node (.typeDeclaration .classType) 17 34 none [
        identifier 23 24 (some .name),
        node .baseList 25 30 none [node (.name .qualified) 27 30 none []],
        node .declarationList 31 34 (some (.other "body")) []]]⟩

end Sample

/-- A pass whose model has a fault stops at it once the scan is done. -/
theorem generated_fault {s : Settings} {trees : List SourceTree} {message : String}
    (hscan : (scan trees s.stubName.string?).toOption.isSome = true)
    (h : (Resolver.compiled trees).fault.map Fault.message = some message) :
    ∃ fault, generated s trees = .error fault ∧ fault.message = message := by
  obtain ⟨fault, hfault, hmessage⟩ := Option.map_eq_some_iff.mp h
  obtain ⟨candidates, hok⟩ := exists_ok_iff.mp hscan
  refine ⟨fault, ?_, hmessage⟩
  rw [generated_eq_outcome, hok, except_ok_bind, Resolver.found, hfault]
  rfl

end PrintGen
