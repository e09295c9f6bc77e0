import PrintGen.Proofs.Tracking
import PrintGen.Proofs.ViewedPass

/-!
# Two passes side by side

Two passes over different trees come to the same fragments, or stop at the same fault, if they find
the same marked fields and stubs of the same types with the same signatures, and if the models say
the same of these types. Their diagnostics are as much alike as the places are that they name.
-/

namespace PrintGen

open Syntax Symbols

/-- A pass whose trees cannot all be declared stops at that fault. -/
theorem Resolver.found_stopped {trees : List SourceTree} {fault : Fault} {table : Table}
    (h : declareTrees (trees ++ [Marker.tree]) .empty = .error fault table) :
    found trees = .error fault := by
  rw [found, compiled, build, h]

/-- What two passes produce: the same fragments, and diagnostics in a relation. -/
structure SameGenerated (same : Diagnostic → Diagnostic → Prop) (g g' : Generated) : Prop where
  fragments : g'.fragments = g.fragments
  diagnostics : List.Forall₂ same g.diagnostics g'.diagnostics

theorem SameGenerated.eq {g g' : Generated} (h : SameGenerated (fun a b => b = a) g g') :
    g' = g := by
  obtain ⟨hfragments, hdiagnostics⟩ := h
  have hlists := map_eq_of_forall₂ (f := id) (g := id) hdiagnostics
  rw [List.map_id, List.map_id] at hlists
  cases g
  cases g'
  exact congrArg₂ Generated.mk hfragments hlists

/-- Two stubs, one of each pass, in the same type and with the same signature. -/
structure SameStub (same : Diagnostic → Diagnostic → Prop) (r r' : Resolver) (c c' : Candidate) :
    Prop where
  owner : r'.model.containingType? c'.tree c'.owner = r.model.containingType? c.tree c.owner
  declaredName : c'.tree.declaredName c'.node = c.tree.declaredName c.node
  modifiers : c'.tree.modifiers c'.node = c.tree.modifiers c.node
  returnType : c'.tree.returnType c'.node = c.tree.returnType c.node
  place : ∀ t declarations declarations' origin,
    same (.nestedType t declarations origin (some ⟨c.tree, c.node⟩))
      (.nestedType t declarations' origin (some ⟨c'.tree, c'.node⟩))

/-- Two passes that find the same and whose models say the same of what they find. -/
structure PairedPass (same : Diagnostic → Diagnostic → Prop) (r r' : Resolver)
    (candidates candidates' : Candidates) : Prop where
  marked : r'.markedAmong candidates'.fields = r.markedAmong candidates.fields
  places : ∀ f ∈ r.markedAmong candidates.fields, ∀ origin,
    same (.nestedType f.owner (r.model.declarationsOf f.owner) origin none)
      (.nestedType f.owner (r'.model.declarationsOf f.owner) origin none)
  stubs : List.Forall₂ (SameStub same r r') candidates.stubs candidates'.stubs
  headers : ∀ t, r'.model.header t = r.model.header t
  printable : ∀ t, (r'.model.printableFields t).map FieldEntry.name =
    (r.model.printableFields t).map FieldEntry.name

section

variable {same : Diagnostic → Diagnostic → Prop} {r r' : Resolver}

/-- The first stub of each type is the same on both sides. -/
theorem firstStubs_paired {stubs stubs' : List Candidate}
    (h : List.Forall₂ (SameStub same r r') stubs stubs') (seen : List TypePath) :
    List.Forall₂ (fun p p' => p'.1 = p.1 ∧ SameStub same r r' p.2 p'.2)
      (r.firstStubs seen stubs) (r'.firstStubs seen stubs') := by
  induction h generalizing seen with
  | nil => exact .nil
  | @cons c c' stubs stubs' hc _ ih =>
    rw [Resolver.firstStubs, Resolver.firstStubs, hc.owner]
    cases r.model.containingType? c.tree c.owner with
    | none => exact ih seen
    | some t =>
      dsimp only
      split
      · exact ih seen
      · exact .cons ⟨rfl, hc⟩ (ih (t :: seen))

/-- Two groups for the same stub. -/
structure SameGroup (same : Diagnostic → Diagnostic → Prop) (g g' : StubGroup TypePath) :
    Prop where
  owner : g'.owner = g.owner
  fieldNames : g'.fieldNames = g.fieldNames
  methodName : g'.methodName = g.methodName
  signature : g'.signature = g.signature
  place : ∀ t declarations declarations' origin,
    same (.nestedType t declarations origin g.site) (.nestedType t declarations' origin g'.site)

theorem SameStub.group {c c' : Candidate} (h : SameStub same r r' c c') {t : TypePath}
    (hp : (r'.model.printableFields t).map FieldEntry.name =
      (r.model.printableFields t).map FieldEntry.name) :
    SameResult (SameGroup same) (r.stubGroup t c) (r'.stubGroup t c') := by
  rw [Resolver.stubGroup, Resolver.stubGroup, h.declaredName, h.modifiers, h.returnType, hp]
  refine (SameResult.of_eq rfl).bind fun name name' hname => ?_
  refine (SameResult.of_eq rfl).bind fun modifiers modifiers' hmodifiers => ?_
  refine (SameResult.of_eq rfl).bind fun type type' htype => ?_
  subst hname hmodifiers htype
  exact .ok ⟨rfl, rfl, rfl, rfl, h.place⟩

section

variable (s : Settings) {m m' : Model} (hh : ∀ t, m'.header t = m.header t) {stem : TypePath → String}

include hh

theorem fieldsItem_paired {group : TypePath × List (ResolvedField TypePath)}
    (hp : ∀ origin, same (.nestedType group.1 (m.declarationsOf group.1) origin none)
      (.nestedType group.1 (m'.declarationsOf group.1) origin none)) :
    (fieldsItem s m' stem group).1 = (fieldsItem s m stem group).1 ∧
      same (fieldsItem s m stem group).2 (fieldsItem s m' stem group).2 := by
  refine ⟨?_, hp _⟩
  rw [fieldsItem, fieldsItem, methodsFragment, methodsFragment, hh]

theorem stubItem_paired {g g' : StubGroup TypePath} (hg : SameGroup same g g') :
    (stubItem s m' stem g').1 = (stubItem s m stem g).1 ∧
      same (stubItem s m stem g).2 (stubItem s m' stem g').2 := by
  rw [stubItem, stubItem, stubFragment, stubFragment, hg.owner, hg.fieldNames, hg.methodName,
    hg.signature, hh]
  exact ⟨rfl, hg.place _ _ _ _⟩

end

theorem settled_paired (s : Settings) {done done' : Generated} (hd : SameGenerated same done done')
    {item item' : Item} (hi : item'.1 = item.1 ∧ same item.2 item'.2) :
    SameResult (SameGenerated same) (settled s done item) (settled s done' item') := by
  obtain ⟨hitem, hsame⟩ := hi
  rw [settled, settled, hitem, hd.fragments]
  cases item.1 with
  | some f =>
    dsimp only
    split
    · exact .error _
    · split
      · exact .error _
      · exact .ok ⟨rfl, hd.diagnostics⟩
  | none =>
    refine .ok ?_
    split
    · exact ⟨rfl, List.rel_append hd.diagnostics (.cons hsame .nil)⟩
    · exact hd

end

/-- **Both passes come to the same.** -/
theorem PairedPass.outcome {same : Diagnostic → Diagnostic → Prop} {r r' : Resolver}
    {candidates candidates' : Candidates} (h : PairedPass same r r' candidates candidates')
    (s : Settings) : SameResult (SameGenerated same) (r.outcome s candidates)
      (r'.outcome s candidates') := by
  have hgroups : SameResult (List.Forall₂ (SameGroup same))
      ((r.firstStubs [] candidates.stubs).mapM fun stub => r.stubGroup stub.1 stub.2)
      ((r'.firstStubs [] candidates'.stubs).mapM fun stub => r'.stubGroup stub.1 stub.2) := by
    refine .mapM ((firstStubs_paired h.stubs []).imp fun p p' hp => ?_)
    rw [hp.1]
    exact hp.2.group (h.printable p.1)
  refine hgroups.bind fun stubs stubs' hstubs => ?_
  have howners : stubs'.map StubGroup.owner = stubs.map StubGroup.owner :=
    map_eq_of_forall₂ (hstubs.imp fun _ _ hg => hg.owner)
  have hstem : stemOf (r'.markedAmong candidates'.fields) stubs' =
      stemOf (r.markedAmong candidates.fields) stubs := by
    funext t
    rw [stemOf, stemOf, fragmentTypes, fragmentTypes, howners, h.marked]
  have hitems : List.Forall₂ (fun item item' : Item => item'.1 = item.1 ∧ same item.2 item'.2)
      (itemsOf s r.model (r.markedAmong candidates.fields) stubs)
      (itemsOf s r'.model (r'.markedAmong candidates'.fields) stubs') := by
    rw [itemsOf, itemsOf, hstem, h.marked]
    refine List.rel_append ?_ ?_
    · rw [List.forall₂_map_left_iff, List.forall₂_map_right_iff, List.forall₂_same]
      intro group hgroup
      refine fieldsItem_paired s h.headers fun origin => ?_
      obtain ⟨f, hf, _, howner⟩ := mem_groupOwners.mp (mem_groupByOwner.mp hgroup).1
      rw [← howner]
      exact h.places f hf origin
    · rw [List.forall₂_map_left_iff, List.forall₂_map_right_iff]
      exact hstubs.imp fun g g' hg => stubItem_paired s h.headers hg
  exact .foldlM hitems (fun _ _ _ _ hd hi => settled_paired s hd hi) ⟨rfl, .nil⟩

end PrintGen
