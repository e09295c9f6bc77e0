import PrintGen.Proofs.Agreement
import PrintGen.Proofs.Replay

/-!
# Names bound in any order

The names of a table are bound one after the other: first all bases, each assigned to its type
before the next one is looked up, then all attributes. Neither the order among the bases, nor that
among the attributes, nor the targets of using directives that lookups leave behind can be seen in
a result. Every name is bound as if it were the only one.
-/

namespace PrintGen.Symbols

open Syntax

/-! ## Bases that are assigned one by one -/

/-- Whether a type may be meant by a name: where only attribute classes are asked for, it has to be
one. -/
def mayBeMeant (attributesOnly : Bool) (isAttributeClass : TypePath → Bool) (t : TypePath) : Bool :=
  isAttributeClass t || !attributesOnly

/-- Binds a base list entry while some types have their bases and others do not yet. -/
def bindBase (table : Table) (assigned : List (TypePath × Option TypePath)) (r : Reference) :
    Binding (Option TypePath) := do
  let name ← Binding.ofExcept (r.site.tree.nameOf r.site.node)
  name.segments.getLast?.elim (return none) fun last =>
    typeNamed table (mayBeMeant false (isAttributeClass table assigned)) name.aliasName
      name.segments.dropLast ⟨withoutMark last.name, last.arity⟩ r.scope r.within

/-- Binds base list entries; each base is assigned to its type before the next entry is bound. -/
def assignBases (table : Table) : List BaseReference → List (TypePath × Option TypePath) →
    Findings → List (TypePath × Option TypePath) × Option Fault × Findings
  | [], assigned, findings => (assigned, none, findings)
  | b :: rest, assigned, findings =>
    match bindBase table assigned b.name findings with
    | .ok base findings => assignBases table rest (assigned ++ [(b.type, base)]) findings
    | .error fault findings => (assigned, some fault, findings)

/-- What binding comes to: the bases and the classes of the attributes as far as they were bound,
the fault that ended the work, if any, and what is known in the end. -/
structure Bound where
  bases : List (TypePath × Option TypePath)
  classes : List (Option TypePath)
  fault : Option Fault
  findings : Findings

/-- Binds bases in the given order, and after them attributes in the given order. -/
def bindInOrder (table : Table) (bases : List BaseReference) (attributes : List Reference) :
    Bound :=
  let (assigned, fault, findings) := assignBases table bases [] .none
  match fault with
  | some fault => ⟨assigned, [], some fault, findings⟩
  | none =>
    let (classes, fault, findings) :=
      bindEach (bindAttribute table (isAttributeClass table assigned)) attributes findings
    ⟨assigned, classes, fault, findings⟩

/-- What was bound, as a model of the table. -/
def Bound.built (run : Bound) (table : Table) : Built :=
  ⟨⟨table, run.bases, run.classes⟩, run.findings.trace, run.fault⟩

/-- For a base it does not matter which types have their bases already: any type may be meant. -/
theorem bindBase_eq (table : Table) (assigned : List (TypePath × Option TypePath))
    (r : Reference) : bindBase table assigned r = bindType table r := by
  have hany : mayBeMeant false (isAttributeClass table assigned) = fun _ => true := by
    funext t
    rw [mayBeMeant, Bool.not_false, Bool.or_true]
  rw [bindBase, bindType, hany]
  congr
  funext name
  cases name.segments.getLast? with
  | none => rfl
  | some last => rfl

theorem assignBases_eq (table : Table) (bases : List BaseReference)
    (assigned : List (TypePath × Option TypePath)) (f : Findings) :
    assignBases table bases assigned f =
      (assigned ++ (bases.map BaseReference.type).zip
          (bindEach (fun b => bindType table b.name) bases f).1,
        (bindEach (fun b => bindType table b.name) bases f).2) := by
  induction bases generalizing assigned f with
  | nil => rw [assignBases, bindEach, List.map_nil, List.zip_nil_left, List.append_nil]
  | cons b rest ih =>
    rw [assignBases, bindBase_eq, bindEach]
    cases bindType table b.name f with
    | ok base g =>
      simp only [ih, List.map_cons, List.zip_cons_cons, List.append_assoc, List.singleton_append]
    | error fault g => simp only [List.zip_nil_right, List.append_nil]

/-- Binding the names of a table takes them in the order of declaration. -/
theorem bindTable_inOrder (table : Table) :
    bindTable table = (bindInOrder table table.bases table.attributes).built table := by
  rw [bindTable, bindInOrder, assignBases_eq, List.nil_append]
  generalize bindEach (fun b => bindType table b.name) table.bases .none = bound
  obtain ⟨bound, fault, findings⟩ := bound
  cases fault with
  | some fault => rfl
  | none => rfl

/-! ## The order of the bases -/

theorem find?_key_iff {α κ : Type} [DecidableEq κ] {key : α → κ} {as : List α}
    (hn : (as.map key).Nodup) {k : κ} {a : α} :
    (as.find? fun a => key a = k) = some a ↔ a ∈ as ∧ key a = k := by
  constructor
  · intro h
    exact ⟨List.mem_of_find?_eq_some h, by simpa using List.find?_some h⟩
  · rintro ⟨ha, rfl⟩
    have hsome : (as.find? fun b => key b = key a).isSome = true :=
      List.find?_isSome.mpr ⟨a, ha, by simp⟩
    obtain ⟨b, hb⟩ := Option.isSome_iff_exists.mp hsome
    have hkey : key b = key a := by simpa using List.find?_some hb
    rw [hb, List.inj_on_of_nodup_map hn (List.mem_of_find?_eq_some hb) ha hkey]

theorem find?_perm {α κ : Type} [DecidableEq κ] {key : α → κ} {as bs : List α} (h : as.Perm bs)
    (hn : (as.map key).Nodup) (k : κ) :
    (as.find? fun a => key a = k) = bs.find? fun a => key a = k := by
  apply Option.ext
  intro a
  rw [find?_key_iff hn, find?_key_iff ((h.map key).nodup_iff.mp hn), h.mem_iff]

theorem isAttributeClass_congr {table : Table} {bases others : List (TypePath × Option TypePath)}
    (h : ∀ t, bases.lookup t = others.lookup t) :
    isAttributeClass table bases = isAttributeClass table others := by
  have hlineage : lineageIn table bases = lineageIn table others := by
    funext t
    rw [lineageIn, lineageIn, h]
  funext t
  rw [isAttributeClass, isAttributeClass, hlineage]

theorem untilFault_none_iff {α β : Type} {v : α → Except Fault β} {as : List α} :
    (untilFault v as).2 = none ↔ ∀ a ∈ as, ∃ b, v a = .ok b := by
  induction as with
  | nil => simp [untilFault]
  | cons a rest ih =>
    rw [untilFault, List.forall_mem_cons]
    cases v a with
    | error fault => simp
    | ok b => simp [ih]

/-- Without a fault, there is a result for every member of the list. -/
theorem untilFault_results {α β : Type} {v : α → Except Fault (Option β)} {as : List α}
    (h : (untilFault v as).2 = none) :
    (untilFault v as).1 = as.map fun a => (v a).toOption.join := by
  induction as with
  | nil => rfl
  | cons a rest ih =>
    rw [untilFault] at h ⊢
    cases hv : v a with
    | error fault =>
      rw [hv] at h
      cases h
    | ok b =>
      rw [hv] at h
      rw [List.map_cons, hv, ← ih h]
      rfl

/-! ## Every name as if it were the only one -/

section

variable {table : Table} {registered : Scope → Prop}

theorem SideBySide.refl (hc : Scoped table registered) :
    SideBySide table table (fun _ => True) registered registered where
  levels := hc
  levels_other := hc
  namespaces _ := rfl
  members _ _ _ := rfl

theorem SameLevels.refl (table : Table) (scope : Scope) : SameLevels table table scope scope := by
  induction scope with
  | nil => exact .nil
  | cons frame outer ih =>
    exact .cons rfl rfl (List.forall₂_same.mpr fun u _ => ⟨rfl, rfl, fun _ => rfl⟩) ih

/-- **A base is bound as if no other name had been bound before.** -/
theorem bindType_alone (hc : Scoped table registered) {r : Reference} (hr : registered r.scope) :
    Gives (Sound table registered) (bindType table r) (alone (bindType table r)) :=
  (((SideBySide.refl hc).bindType ⟨rfl, .refl table _, rfl⟩ hr hr
    fun _ _ _ _ => ⟨trivial, trivial⟩).gives sound_none).1

/-- **So is an attribute,** once it is known which types are attribute classes. -/
theorem bindAttribute_alone (hc : Scoped table registered) (counts : TypePath → Bool)
    {r : Reference} (hr : registered r.scope) :
    Gives (Sound table registered) (bindAttribute table counts r)
      (alone (bindAttribute table counts r)) :=
  (((SideBySide.refl hc).bindAttribute (fun _ _ => rfl) ⟨rfl, .refl table _, rfl⟩ hr hr
    fun _ _ _ _ => trivial).gives sound_none).1

/-- Seen from any file, a global directive has the target that it has in the global namespace. -/
theorem targetOf_file (hm : (table.usings.map Using.mark).Nodup) {u : Using}
    (hu : u ∈ table.usings) (hg : u.frame = none) {file other : Frame} (hf : file.isFile = true)
    (hh : file.home = .global) (ho : other.isFile = true) (hh' : other.home = .global) :
    alone (targetOf table [file] u) = table.readTarget [other] u := by
  -- The file is a scope of its own, and nothing else is needed to look the target up.
  have hscoped : Scoped table (fun scope => scope = [file] ∨ scope = []) := by
    constructor
    · rintro frame outer (h | h)
      · cases h
        exact .inr rfl
      · cases h
    · rintro frame frame' outer outer' (h | h) (h' | h') _
      · rw [h, h']
      · cases h'
      · cases h
      · cases h
    · rintro frame outer (h | h) _
      · cases h
        exact ⟨hh, rfl⟩
      · cases h
    · exact hm
  have hsees : u ∈ table.usingsOf file := by
    rw [Table.usingsOf, if_pos hf]
    exact List.mem_append_right _ (List.mem_filter.mpr ⟨hu, by simpa using hg⟩)
  have hread := (targetOf_reads hscoped ⟨.inl rfl, file, [], rfl, hsees⟩).resultOf_eq sound_none
  rw [alone, hread]
  simp only [Table.readTarget, usingTarget?_file hf hh ho hh']

/-- What is kept of a global directive is its target. -/
theorem Sound.global (hc : Scoped table registered) {f : Findings} (h : Sound table registered f)
    {u : Using} (hu : u ∈ table.usings) (hg : u.frame = none) {target : Option Entity}
    (hl : f.targets.lookup u.mark = some target) {file : Frame} (hf : file.isFile = true)
    (hh : file.home = .global) : alone (targetOf table [file] u) = .ok target := by
  obtain ⟨v, scope, ⟨hr, frame, outer, rfl, hv⟩, hm, hread⟩ := h u.mark target hl
  obtain rfl : v = u := eq_of_mark hc (mem_usingsOf hv).1 hu hm
  rcases (mem_usingsOf hv).2 with hown | ⟨_, hfile⟩
  · rw [hg] at hown
    cases hown
  · obtain ⟨hhome, rfl⟩ := hc.file hr hfile
    rw [targetOf_file hc.marks hu hg hf hh hfile hhome, hread]

end

/-- What each of these bases is bound to alone, up to the first fault. -/
def Table.basesAlone (table : Table) (bases : List BaseReference) :
    List (Option TypePath) × Option Fault :=
  untilFault (fun b => alone (bindType table b.name)) bases

/-- What each of these attributes is bound to alone when all bases are known, up to the first
fault. -/
def Table.attributesAlone (table : Table) (attributes : List Reference) :
    List (Option TypePath) × Option Fault :=
  untilFault (fun r => alone (bindAttribute table (isAttributeClass table
    ((table.bases.map BaseReference.type).zip (table.basesAlone table.bases).1)) r)) attributes

/-- If no base is at fault, the same types are attribute classes in whatever order the bases were
bound. -/
theorem isAttributeClass_perm {table : Table} {bases : List BaseReference}
    (hp : bases.Perm table.bases) (hn : (table.bases.map BaseReference.type).Nodup)
    (hf : (table.basesAlone bases).2 = none) :
    isAttributeClass table ((bases.map BaseReference.type).zip (table.basesAlone bases).1) =
      isAttributeClass table
        ((table.bases.map BaseReference.type).zip (table.basesAlone table.bases).1) := by
  have hf' : (table.basesAlone table.bases).2 = none := by
    rw [Table.basesAlone, untilFault_none_iff] at hf ⊢
    exact fun b hb => hf b (hp.mem_iff.mpr hb)
  apply isAttributeClass_congr
  intro t
  rw [Table.basesAlone, Table.basesAlone, untilFault_results hf, untilFault_results hf',
    List.zip_map', List.zip_map', lookup_map_type, lookup_map_type,
    find?_perm hp ((hp.map _).nodup_iff.mpr hn)]

/-- Every name was bound as if it were the only one, up to the first fault. A base that is at fault
leaves all attributes unbound. -/
structure EachAlone (table : Table) (bases : List BaseReference) (attributes : List Reference)
    (run : Bound) : Prop where
  assigned : run.bases = (bases.map BaseReference.type).zip (table.basesAlone bases).1
  classes : (table.basesAlone bases).2 = none →
    (run.classes, run.fault) = table.attributesAlone attributes
  stopped : ∀ fault, (table.basesAlone bases).2 = some fault →
    (run.classes, run.fault) = ([], some fault)

/-- A global using directive has one target, whatever file it is looked up from first, and that is
the one that is kept. -/
def OneTarget (table : Table) (run : Bound) (u : Using) : Prop :=
  ∀ file other : Frame, file.isFile = true → file.home = .global → other.isFile = true →
    other.home = .global →
    alone (targetOf table [file] u) = alone (targetOf table [other] u) ∧
      (run.fault = none → ∀ target, run.findings.targets.lookup u.mark = some target →
        alone (targetOf table [file] u) = .ok target)

section

variable {table : Table} {registered : Scope → Prop} {bases : List BaseReference}
  {attributes : List Reference}

/-- **Names bound one after the other are bound like each of them alone,** and what is known in the
end is sound. -/
theorem bindInOrder_alone (hc : Scoped table registered) (hb : bases.Perm table.bases)
    (hn : (table.bases.map BaseReference.type).Nodup)
    (hbases : ∀ b ∈ bases, registered b.name.scope)
    (hattributes : ∀ r ∈ attributes, registered r.scope) :
    EachAlone table bases attributes (bindInOrder table bases attributes) ∧
      ((bindInOrder table bases attributes).fault = none →
        Sound table registered (bindInOrder table bases attributes).findings) := by
  obtain ⟨mid, hmid, hsound⟩ :=
    bindEach_eq (fun b hmem => bindType_alone hc (hbases b hmem)) sound_none
  rw [← Table.basesAlone] at hmid hsound
  rw [bindInOrder, assignBases_eq, hmid, List.nil_append]
  cases hfault : (table.basesAlone bases).2 with
  | some fault =>
    refine ⟨⟨rfl, ?_, ?_⟩, ?_⟩
    · rw [hfault]
      intro h
      cases h
    · rw [hfault]
      intro other h
      cases h
      rfl
    · intro h
      cases h
  | none =>
    obtain ⟨last, hlast, hsound'⟩ := bindEach_eq
      (fun r hmem => bindAttribute_alone hc (isAttributeClass table ((bases.map
        BaseReference.type).zip (table.basesAlone bases).1)) (hattributes r hmem))
      (hsound hfault)
    simp only [hlast]
    refine ⟨⟨rfl, fun _ => ?_, ?_⟩, hsound'⟩
    · rw [isAttributeClass_perm hb hn hfault]
      rfl
    · rw [hfault]
      intro fault h
      cases h

end

/-- **Every name is bound as if it were the only one, in whatever order the names are taken.** The
order of declaration is one of these orders. -/
theorem bound_in_any_order {trees : List SourceTree} {table : Table}
    (hd : declareTrees trees .empty = .ok () table) {bases : List BaseReference}
    {attributes : List Reference} (hb : bases.Perm table.bases)
    (ha : attributes.Perm table.attributes) :
    EachAlone table bases attributes (bindInOrder table bases attributes) ∧
      (∀ u ∈ table.usings, u.frame = none →
        OneTarget table (bindInOrder table bases attributes) u) ∧
      bindTable table = (bindInOrder table table.bases table.attributes).built table := by
  have hdeclared := declareTrees_iff.mp hd
  obtain ⟨registered, hc⟩ := hdeclared.settled settled_empty
  obtain ⟨es, hes⟩ := hdeclared.after
  have hnodup : (table.bases.map BaseReference.type).Nodup := by
    rw [hes]
    exact Table.empty.after_bases_nodup es List.nodup_nil
  have hattributes : ∀ r ∈ attributes, registered r.scope := by
    intro r hmem
    obtain ⟨f, hf, hr⟩ := List.mem_flatMap.mp (ha.mem_iff.mp hmem)
    exact hc.attributes f hf r hr
  obtain ⟨heach, hsound⟩ := bindInOrder_alone hc.toScoped hb hnodup
    (fun b hmem => hc.bases b (hb.mem_iff.mp hmem)) hattributes
  refine ⟨heach, ?_, bindTable_inOrder table⟩
  intro u hu hg file other hf hh hf' hh'
  constructor
  · rw [targetOf_file hc.marks hu hg hf hh hf' hh', targetOf_file hc.marks hu hg hf' hh' hf' hh']
  · intro hfault target hl
    exact (hsound hfault).global hc.toScoped hu hg hl hf hh

namespace Sample

open Marker (node identifier token)

/-- An attribute class behind a global using directive, two steps away from the base that makes it
one. -/
def imported : SourceTree :=
  ⟨.source 0, "imported.cs", "global using N; class B : A \x7b [M] int x; \x7d ".toList ++
    "class A : System.Attribute \x7b \x7d ".toList ++
    "namespace N \x7b class MAttribute : global::A \x7b \x7d \x7d".toList, false,
    node (.other "compilation_unit") 0 122 none [
      node .usingDirective 0 15 none [
        token .globalToken 0 6,
        identifier 13 14 none],
      node (.typeDeclaration .classType) 16 42 none [
        identifier 22 23 (some .name),
        node .baseList 24 27 none [identifier 26 27 none],
        node .declarationList 28 42 (some (.other "body")) [
          node .fieldDeclaration 30 40 none [
            node .attributeList 30 33 none [
              node .attributeUse 31 32 none [identifier 31 32 (some .name)]],
            node .variableDeclaration 34 39 none [
              node (.other "predefined_type") 34 37 (some .type) [],
              node .variableDeclarator 38 39 none [identifier 38 39 (some .name)]]]]],
      node (.typeDeclaration .classType) 43 73 none [
        identifier 49 50 (some .name),
        node .baseList 51 69 none [
          node (.name .qualified) 53 69 none [
            identifier 53 59 (some .qualifier),
            identifier 60 69 (some .name)]],
        node .declarationList 70 73 (some (.other "body")) []],
      node .namespaceDeclaration 74 122 none [
        identifier 84 85 (some .name),
        node .declarationList 86 122 (some (.other "body")) [
          node (.typeDeclaration .classType) 88 120 none [
            identifier 94 104 (some .name),
            node .baseList 105 116 none [
              node (.name .aliasQualified) 107 116 none [
                identifier 107 113 (some .aliasName),
                identifier 115 116 (some .name)]],
            node .declarationList 117 120 (some (.other "body")) []]]]]⟩

end Sample

/-- The bases from the last to the first, and the attribute after them. -/
theorem bound_in_reverse_of_sample : ∃ table, declareTrees [Sample.imported] .empty = .ok () table ∧
    EachAlone table table.bases.reverse table.attributes.reverse
      (bindInOrder table table.bases.reverse table.attributes.reverse) ∧
    (∃ u ∈ table.usings, OneTarget table
      (bindInOrder table table.bases.reverse table.attributes.reverse) u) ∧
    (bindInOrder table table.bases.reverse table.attributes.reverse).bases =
      [(.top (.child .global "N") ⟨"MAttribute", 0⟩, some (.top .global ⟨"A", 0⟩)),
        (.top .global ⟨"A", 0⟩, none), (.top .global ⟨"B", 0⟩, some (.top .global ⟨"A", 0⟩))] ∧
    (bindInOrder table table.bases.reverse table.attributes.reverse).classes =
      [some (.top (.child .global "N") ⟨"MAttribute", 0⟩)] := by
  have hw : ∀ tree ∈ [Sample.imported], tree.WellFormed := by decide +kernel
  obtain ⟨table, hd⟩ := declaresTrees_total hw .empty
  have hrun := declareTrees_iff.mpr hd
  have htable : table = declaredTable [Sample.imported] := by rw [declaredTable, hrun]
  obtain ⟨heach, htarget, -⟩ := bound_in_any_order hrun table.bases.reverse_perm
    table.attributes.reverse_perm
  refine ⟨table, hrun, heach, ?_, ?_, ?_⟩
  · have hglobal : ∃ u ∈ table.usings, u.frame = none := by
      rw [htable]
      decide +kernel
    obtain ⟨u, hu, hg⟩ := hglobal
    exact ⟨u, hu, htarget u hu hg⟩
  · rw [htable]
    decide +kernel
  · rw [htable]
    decide +kernel

end PrintGen.Symbols
