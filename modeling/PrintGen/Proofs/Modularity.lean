import PrintGen.Proofs.Apart
import PrintGen.Proofs.FileOrder
import PrintGen.Proofs.IdleTrees

/-!
# Unrelated files do not disturb each other

A tree that keeps to a root namespace of its own, which no other tree mentions, and whose types have
simple names of their own, can be added to any compilation: all fragments and diagnostics of the
compilation are produced as before, in the same order, among those of the tree.
-/

namespace PrintGen

open Syntax Symbols

/-- A tree that has nothing to do with others: it keeps to a root namespace that they never mention,
and no type has the same simple name in both. -/
structure Unrelated (root : String) (trees : List SourceTree) (tree : SourceTree) : Prop where
  named : root ≠ ""
  keeps : KeepsTo root tree
  avoided : ∀ other ∈ trees ++ [Marker.tree], other.Avoids root
  names : ∀ e ∈ (build [tree]).model.table.types, ∀ e' ∈ (build trees).model.table.types,
    e.path.name ≠ e'.path.name

/-- Two resolvers, the second one for a compilation with one more tree. If the tree was there
before, it declares nothing. -/
structure Enlarged (root : String) (trees : List SourceTree) (tree : SourceTree) (r r' : Resolver) :
    Prop where
  apart : Apart root tree.id r.model.table r'.model.table
  bound : r.model = r.model.table.bound
  bound' : r'.model = r'.model.table.bound
  untouched : Untouched tree.id r.model.table
  repeated : ∀ other ∈ trees, other.id = tree.id → r'.model.table.fields = r.model.table.fields ∧
    ∀ key, r'.model.table.typeOfNode? key = r.model.table.typeOfNode? key
  own : ∀ t, r'.model.table.hasType t = true → t.home.root? = some root →
    (build [tree]).model.table.hasType t = true
  fieldOwners : ∀ f ∈ r.model.table.fields, (build trees).model.table.hasType f.owner = true
  nodeOwners : ∀ key, key.tree ≠ .marker → ∀ t, r.model.table.typeOfNode? key = some t →
    (build trees).model.table.hasType t = true
  known : ∀ {t}, (build trees).model.table.hasType t = true → r.model.table.hasType t = true

section

variable {root : String} {trees : List SourceTree} {tree : SourceTree}

/-- Before the marker source is declared, the tree is declared beside the others. -/
theorem Unrelated.joins (h : Unrelated root trees tree)
    (hids : ∀ other ∈ trees, other.id = tree.id → other = tree) (hw : tree.WellFormed)
    {mid : Table} (htrees : DeclaresTrees trees .empty mid) :
    Untouched tree.id mid ∧ ∃ es, Joins root tree mid es ∧ ∀ other ∈ trees, other.id = tree.id →
      declarationsIn es = [] ∧ es.flatMap Event.fields = [] := by
  have homits : ∀ other ∈ trees, ∀ n ∈ other.root.preorder, other.Omits root n := fun other ho =>
    SourceTree.omits_of_avoids h.named (h.avoided other (List.mem_append_left _ ho))
  have hidle : ∀ other ∈ trees, other.id = tree.id → Idle other := by
    intro other ho hid
    obtain rfl := hids other ho hid
    exact h.keeps.idle hw (homits other ho)
  refine ⟨htrees.untouched hidle (untouched_empty tree.id), ?_⟩
  by_cases hin : ∃ other ∈ trees, other.id = tree.id
  · obtain ⟨other, ho, hid⟩ := hin
    obtain ⟨registered, ha⟩ := htrees.settled settled_empty
    obtain rfl := hids other ho hid
    obtain ⟨es, hjoins, hnothing⟩ := (hidle other ho hid).joins ha.frames
    exact ⟨es, hjoins, fun _ _ _ => hnothing⟩
  · have hnew : ∀ other ∈ trees, other.id ≠ tree.id := fun other ho hid => hin ⟨other, ho, hid⟩
    have hmid : ∀ t, mid.hasType t = true → t.home.root? ≠ some root := fun t ht =>
      (htrees.outside homits (outside_empty root)).type (htrees.stored Stored.empty) ht
    obtain ⟨es, hjoins⟩ := h.keeps.joins hw (htrees.fresh (fresh_empty tree) hnew) hmid
    exact ⟨es, hjoins, fun other ho hid => absurd hid (hnew other ho)⟩

/-- After it, the marker source makes the same records as without it. -/
theorem Symbols.Joins.apart {mid table : Table} {es : List Event} (h : Joins root tree mid es)
    (hu : Untouched tree.id mid) (hmarker : ∀ other ∈ trees ++ [tree], other.id ≠ .marker)
    (homits : ∀ other ∈ trees ++ [Marker.tree], ∀ n ∈ other.root.preorder, other.Omits root n)
    (htrees : DeclaresTrees trees .empty mid) (hlast : DeclaresTree Marker.tree mid table) :
    ∃ marks, table = mid.after marks ∧ marks.flatMap Event.fields = [] ∧
      DeclaresTree Marker.tree (mid.after es) ((mid.after es).after marks) ∧
      Apart root tree.id table ((mid.after es).after marks) := by
  obtain ⟨hmt, hmtree⟩ := List.forall_mem_append.mp hmarker
  rw [List.forall_mem_singleton] at hmtree
  have hall : DeclaresTrees (trees ++ [Marker.tree]) .empty table :=
    htrees.append (.cons hlast .nil)
  have hstored := hall.stored Stored.empty
  have houtside := hall.outside homits (outside_empty root)
  have hbeside := h.beside hu.nodes
  obtain ⟨marks, hmarks⟩ := hlast.replays
  have hfresh := htrees.fresh (fresh_empty Marker.tree) hmt
  have hfresh' := hfresh.after hmtree h.sent
  have hfits : Fits Marker.tree none marks mid (mid.after es) := by
    refine ⟨⟨hfresh.1.trans hfresh'.1.symm, hfresh.2.trans hfresh'.2.symm⟩, ?_,
      fun t ht => by cases ht⟩
    intro d hd
    have hpath : table.hasType d.path = true := by
      rw [hmarks.result, Table.after_hasType]
      exact .inr (List.mem_map_of_mem hd)
    rw [Table.kindOf?, Table.kindOf?, hbeside.entries d.path (houtside.type hstored hpath)]
  have hfields : marks.flatMap Event.fields = [] := by
    have hsame := (Marker.declared hlast).2.2
    rw [hmarks.result, Table.after_fields] at hsame
    exact List.append_right_eq_self.mp hsame
  have hafter := hbeside.after hmarks.sent hmtree.symm hfields
  rw [← hmarks.result] at hafter
  exact ⟨marks, hmarks.result, hfields, hmarks.again _ hfits, ⟨hafter, hstored, houtside,
    hall.placed placed_empty, hall.names homits names_empty⟩⟩

/-- **The symbols of an unrelated tree stand apart.** -/
theorem Unrelated.enlarged (h : Unrelated root trees tree)
    (hids : ∀ other ∈ trees, other.id = tree.id → other = tree)
    (hw : ∀ other ∈ trees ++ [tree], other.WellFormed)
    (hmarker : ∀ other ∈ trees ++ [tree], other.id ≠ .marker) {r r' : Resolver}
    (hr : Resolver.found trees = .ok r) (hr' : Resolver.found (trees ++ [tree]) = .ok r') :
    Enlarged root trees tree r r' := by
  obtain ⟨hwt, hwtree⟩ := List.forall_mem_append.mp hw
  rw [List.forall_mem_singleton] at hwtree
  have homits : ∀ other ∈ trees ++ [Marker.tree], ∀ n ∈ other.root.preorder,
      other.Omits root n :=
    fun other ho => SourceTree.omits_of_avoids h.named (h.avoided other ho)
  obtain ⟨_, hfound, hbound, -, hdeclares⟩ := Resolver.found_wellFormed hwt
  obtain ⟨_, hfound', hbound', -, hdeclares'⟩ := Resolver.found_wellFormed hw
  obtain rfl := Except.ok.inj (hr.symm.trans hfound)
  obtain rfl := Except.ok.inj (hr'.symm.trans hfound')
  obtain ⟨mid, htrees, hlast⟩ := hdeclares.split_last
  obtain ⟨mid', hmid', hlast'⟩ := hdeclares'.split_last
  obtain ⟨first, hfirst, htree⟩ := hmid'.split_last
  obtain rfl := htrees.unique hfirst
  obtain ⟨huntouched, es, hjoins, hrepeated⟩ := h.joins hids hwtree htrees
  obtain rfl := htree.unique hjoins.declares
  obtain ⟨marks, hresult, hfields, hdone, hapart⟩ :=
    hjoins.apart huntouched hmarker homits htrees hlast
  have hlater := hlast'.unique hdone
  rw [← hlater] at hapart
  have hbuild := (build_wellFormed hwt).2.1.unique htrees
  have hmarkerNodes : ∀ key, key.tree ≠ .marker →
      r.model.table.typeOfNode? key = mid.typeOfNode? key := fun key hkey =>
    (DeclaresTrees.cons hlast .nil).typeOfNode? (List.forall_mem_singleton.mpr (Ne.symm hkey))
  have htreeMarker : tree.id ≠ .marker := hmarker tree (by simp)
  refine ⟨hapart, hbound, hbound', ⟨?_, ?_⟩, ?_, ?_, ?_, ?_, ?_⟩
  · rw [(Marker.declared hlast).2.2]
    exact huntouched.fields
  · intro key hkey
    rw [hmarkerNodes key (hkey ▸ htreeMarker)]
    exact huntouched.nodes key hkey
  · intro other ho hid
    obtain ⟨hdeclarations, hnone⟩ := hrepeated other ho hid
    rw [hlater, hresult]
    constructor
    · rw [Table.after_fields, Table.after_fields, Table.after_fields, hnone, List.append_nil]
    · intro key
      rw [Table.after_typeOfNode?, Table.after_typeOfNode?, Table.after_typeOfNode?,
        declarationsAt, declarationsAt, hdeclarations]
      rfl
  · intro t ht hin
    rw [hlater, Table.after_hasType, Table.after_hasType, or_right_comm, ← Table.after_hasType,
      ← hresult] at ht
    rcases ht with hold | hown
    · exact absurd hin (hapart.outside.type hapart.stored hold)
    · obtain ⟨d, hd, rfl⟩ := List.mem_map.mp hown
      exact hjoins.known d hd
  · rw [(Marker.declared hlast).2.2, hbuild]
    exact htrees.ownersDeclared ownersDeclared_empty
  · intro key hkey t ht
    rw [hmarkerNodes key hkey] at ht
    rw [hbuild]
    exact htrees.nodesDeclared nodesDeclared_empty key t ht
  · intro t ht
    rw [hbuild] at ht
    exact (DeclaresTrees.cons hlast .nil).grows.hasType ht

/-! ## Fields and stubs -/

variable {s : Settings} {r r' : Resolver} {candidates candidates' : Candidates}
  {fields fields' : List (ResolvedField TypePath)} {stubs stubs' : List (StubGroup TypePath)}

theorem Stages.candidates_added (h : Stages s trees r candidates fields stubs)
    (h' : Stages s (trees ++ [tree]) r' candidates' fields' stubs') :
    candidates'.fields = candidates.fields ++ tree.annotatedFields ∧
      candidates'.stubs = candidates.stubs ++
        (stubPlaces [tree] s.stubName.string?).map candidateAt := by
  obtain ⟨-, rfl⟩ := scan_ok_iff.mp h.scanned
  obtain ⟨-, rfl⟩ := scan_ok_iff.mp h'.scanned
  constructor
  · rw [List.flatMap_append, List.flatMap_singleton]
  · simp only [stubPlaces, allPlaces, List.flatMap_append, List.filter_append, List.map_append]

theorem Stages.mem_fields_tree (h : Stages s trees r candidates fields stubs) {c : Candidate}
    (hc : c ∈ candidates.fields) : c.tree ∈ trees := by
  obtain ⟨-, rfl⟩ := scan_ok_iff.mp h.scanned
  obtain ⟨other, ho, hmem⟩ := List.mem_flatMap.mp hc
  obtain ⟨o, -, rfl⟩ := List.mem_map.mp hmem
  exact ho

theorem Stages.mem_stubs_tree (h : Stages s trees r candidates fields stubs) {c : Candidate}
    (hc : c ∈ candidates.stubs) : c.tree ∈ trees := by
  obtain ⟨-, rfl⟩ := scan_ok_iff.mp h.scanned
  obtain ⟨q, hq, rfl⟩ := List.mem_map.mp hc
  exact (mem_allPlaces (List.mem_filter.mp hq).1).1

theorem Enlarged.outside (he : Enlarged root trees tree r r') {t : TypePath}
    (ht : r.model.table.hasType t = true) : t.home.root? ≠ some root :=
  he.apart.outside.type he.apart.stored ht

/-- A tree that was there before adds no field. -/
theorem Enlarged.no_field_added (he : Enlarged root trees tree r r') {other : SourceTree}
    (ho : other ∈ trees) (hid : other.id = tree.id) {added : List BoundField}
    (hadded : r'.model.fields = r.model.fields ++ added) : added = [] := by
  have hsame := (he.repeated other ho hid).1
  rw [← Model.fields_field, ← Model.fields_field, hadded, List.map_append] at hsame
  exact List.map_eq_nil_iff.mp (List.append_right_eq_self.mp hsame)

/-- **The marked fields of the tree come after the others.** -/
theorem Enlarged.fields_eq (he : Enlarged root trees tree r r')
    (h : Stages s trees r candidates fields stubs)
    (h' : Stages s (trees ++ [tree]) r' candidates' fields' stubs') :
    ∃ more, fields' = fields ++ more ∧ ∀ f ∈ more,
      f.owner.home.root? = some root ∧ r'.model.table.hasType f.owner = true := by
  obtain ⟨added, hadded, hall⟩ := he.apart.bound_fields
  rw [← he.bound, ← he.bound'] at hadded
  have hmarked : r'.isMarked = r.isMarked := by
    funext f
    rw [Resolver.isMarked_eq h.found, Resolver.isMarked_eq h'.found]
  have hold : ∀ c ∈ candidates.fields, r'.model.declaredFields (c.tree.key c.node) =
      r.model.declaredFields (c.tree.key c.node) := by
    intro c hc
    have hnone : added.filter (fun f => f.field.origin = some (c.tree.key c.node)) = [] := by
      rw [List.filter_eq_nil_iff]
      intro f hf ho
      have hid := (hall f hf).2 _ (of_decide_eq_true ho)
      rw [he.no_field_added (h.mem_fields_tree hc) hid hadded] at hf
      cases hf
    rw [Model.declaredFields, hadded, List.filter_append, hnone, List.append_nil]
    rfl
  have hown : ∀ c ∈ tree.annotatedFields, ∀ f ∈ r'.model.declaredFields (c.tree.key c.node),
      f.field.owner.home.root? = some root := by
    intro c hc f hf
    obtain ⟨o, -, rfl⟩ := List.mem_map.mp hc
    obtain ⟨hmem, ho⟩ := List.mem_filter.mp hf
    rw [hadded] at hmem
    rcases List.mem_append.mp hmem with hold | hlate
    · have hfield : f.field ∈ r.model.table.fields := by
        rw [← Model.fields_field]
        exact List.mem_map_of_mem hold
      exact absurd rfl (he.untouched.fields f.field hfield _ (of_decide_eq_true ho))
    · exact (hall f hlate).1
  refine ⟨r'.markedAmong tree.annotatedFields, ?_, ?_⟩
  · have hflat : candidates.fields.flatMap (fun c =>
        r'.model.declaredFields (c.tree.key c.node)) =
        candidates.fields.flatMap fun c => r.model.declaredFields (c.tree.key c.node) := by
      rw [List.flatMap_def, List.flatMap_def, List.map_congr_left hold]
    rw [h.fields_eq, h'.fields_eq, (h.candidates_added h').1, Resolver.markedAmong,
      Resolver.markedAmong, Resolver.markedAmong, List.flatMap_append, List.filter_append,
      List.map_append, hmarked, hflat]
  · intro f hf
    obtain ⟨b, hb, rfl⟩ := List.mem_map.mp hf
    obtain ⟨c, hc, hmem⟩ := List.mem_flatMap.mp (List.mem_filter.mp hb).1
    have hin : b ∈ r'.model.fieldsOf b.field.owner :=
      List.mem_filter.mpr ⟨(List.mem_filter.mp hmem).1, decide_eq_true rfl⟩
    exact ⟨hown c hc b hmem, hasType_of_field h'.found hin⟩

theorem Enlarged.stubGroup (he : Enlarged root trees tree r r') {t : TypePath}
    (ht : r.model.table.hasType t = true) (c : Candidate) :
    r'.stubGroup t c = r.stubGroup t c := by
  obtain ⟨more, hmore, hall⟩ := he.apart.fields
  have hnone : more.filter (fun f => f.owner = t) = [] := by
    rw [List.filter_eq_nil_iff]
    intro f hf ho
    rw [← of_decide_eq_true ho] at ht
    exact he.outside ht (hall f hf).1
  have hfields : r'.model.table.fieldsOf t = r.model.table.fieldsOf t := by
    rw [Table.fieldsOf, hmore, List.filter_append, hnone, List.append_nil]
    rfl
  rw [Resolver.stubGroup, Resolver.stubGroup, Model.printableFields, Model.printableFields, hfields]

/-- **The stubs of the tree come after the others.** -/
theorem Enlarged.stubs_eq (he : Enlarged root trees tree r r')
    (h : Stages s trees r candidates fields stubs)
    (h' : Stages s (trees ++ [tree]) r' candidates' fields' stubs') :
    ∃ more, stubs' = stubs ++ more ∧ ∀ g ∈ more,
      g.owner.home.root? = some root ∧ r'.model.table.hasType g.owner = true := by
  have hold : ∀ c ∈ candidates.stubs, r'.ownerOf? c = r.ownerOf? c := by
    intro c hc
    rw [Resolver.ownerOf?, Resolver.ownerOf?, Model.containingType?, Model.containingType?]
    cases c.owner with
    | none => rfl
    | some node =>
      by_cases hid : c.tree.id = tree.id
      · exact (he.repeated c.tree (h.mem_stubs_tree hc) hid).2 _
      · exact he.apart.nodes _ hid
  have hsigned := h'.signed
  rw [(h.candidates_added h').2] at hsigned
  obtain ⟨later, hlater⟩ := r'.firstStubs_append [] candidates.stubs
    ((stubPlaces [tree] s.stubName.string?).map candidateAt)
  rw [hlater, Resolver.firstStubs_congr hold, List.mapM_append] at hsigned
  obtain ⟨before, hbefore, hrest⟩ := except_bind_ok.mp hsigned
  obtain ⟨more, hmore, hall⟩ := except_bind_ok.mp hrest
  have hsame : (r.firstStubs [] candidates.stubs).mapM (fun stub => r'.stubGroup stub.1 stub.2) =
      (r.firstStubs [] candidates.stubs).mapM fun stub => r.stubGroup stub.1 stub.2 := by
    refine mapM_congr_mem fun stub hstub => he.stubGroup ?_ _
    exact hasType_of_owner h.found (r.firstStubs_mem hstub).2
  rw [hsame, h.signed] at hbefore
  cases hbefore
  cases hall
  refine ⟨more, rfl, fun g hg => ?_⟩
  obtain ⟨⟨t, c⟩, hstub, hgroup⟩ := mem_of_mapM hmore hg
  obtain ⟨rfl, -, -⟩ := stubGroup_ok hgroup
  obtain ⟨hmem, howner⟩ := r'.firstStubs_mem hstub
  refine ⟨?_, hasType_of_owner h'.found howner⟩
  obtain ⟨q, hq, rfl⟩ := List.mem_map.mp hmem
  obtain ⟨htree, -⟩ := mem_allPlaces (List.mem_filter.mp hq).1
  obtain ⟨node, -, hnode⟩ := Option.bind_eq_some_iff.mp howner
  refine he.apart.ownNodes _ ?_ _ hnode
  exact congrArg SourceTree.id (List.mem_singleton.mp htree)

/-! ## Fragments and diagnostics -/

/-- The types of the other trees that get fragments. -/
theorem Enlarged.declared (he : Enlarged root trees tree r r')
    (hmarker : ∀ other ∈ trees, other.id ≠ .marker)
    (h : Stages s trees r candidates fields stubs) {t : TypePath}
    (ht : t ∈ groupOwners fields ++ stubs.map StubGroup.owner) :
    (build trees).model.table.hasType t = true := by
  rcases List.mem_append.mp ht with hown | hstub
  · obtain ⟨f, hf, -⟩ := (h.mem_owners t).mp hown
    obtain ⟨hmem, ho⟩ := List.mem_filter.mp hf
    rw [← of_decide_eq_true ho]
    apply he.fieldOwners
    rw [← Model.fields_field]
    exact List.mem_map_of_mem hmem
  · obtain ⟨q, hq, hnode⟩ := (h.mem_stubs t).mp hstub
    obtain ⟨htree, -⟩ := mem_allPlaces (List.mem_filter.mp hq).1
    obtain ⟨node, -, hnode⟩ := Option.bind_eq_some_iff.mp hnode
    exact he.nodeOwners _ (hmarker q.1 htree) t hnode

/-- What the tree adds to the stages of a pass: fields and stubs of its own types. -/
structure Appended (tree : SourceTree) (fields fields' : List (ResolvedField TypePath))
    (stubs stubs' : List (StubGroup TypePath)) (moreFields : List (ResolvedField TypePath))
    (moreStubs : List (StubGroup TypePath)) : Prop where
  fields : fields' = fields ++ moreFields
  stubs : stubs' = stubs ++ moreStubs
  owners : ∀ f ∈ moreFields, (build [tree]).model.table.hasType f.owner = true
  stubOwners : ∀ g ∈ moreStubs, (build [tree]).model.table.hasType g.owner = true

theorem Enlarged.appended (he : Enlarged root trees tree r r')
    (h : Stages s trees r candidates fields stubs)
    (h' : Stages s (trees ++ [tree]) r' candidates' fields' stubs') :
    ∃ moreFields moreStubs, Appended tree fields fields' stubs stubs' moreFields moreStubs := by
  obtain ⟨moreFields, hfields, hown⟩ := he.fields_eq h h'
  obtain ⟨moreStubs, hstubs, hown'⟩ := he.stubs_eq h h'
  refine ⟨moreFields, moreStubs, hfields, hstubs, fun f hf => ?_, fun g hg => ?_⟩
  · exact he.own _ (hown f hf).2 (hown f hf).1
  · exact he.own _ (hown' g hg).2 (hown' g hg).1

section

variable {moreFields : List (ResolvedField TypePath)} {moreStubs : List (StubGroup TypePath)}
  (ha : Appended tree fields fields' stubs stubs' moreFields moreStubs)
  (hnames : ∀ t u, (build [tree]).model.table.hasType t = true →
    (build trees).model.table.hasType u = true → t.name ≠ u.name)

include ha hnames

/-- Types keep their stems, since no new type has the name of an old one. -/
theorem Appended.stemOf {t : TypePath} (ht : (build trees).model.table.hasType t = true) :
    PrintGen.stemOf fields' stubs' t = PrintGen.stemOf fields stubs t := by
  refine stemAmong_congr_name _ _ fun u hu => ?_
  have hown : ¬ (build [tree]).model.table.hasType u = true :=
    fun hhas => hnames u t hhas ht hu
  have hfields : u ∉ groupOwners moreFields := by
    intro hmem
    obtain ⟨f, hf, _, rfl⟩ := mem_groupOwners.mp hmem
    exact hown (ha.owners f hf)
  have hstubs : u ∉ moreStubs.map StubGroup.owner := by
    intro hmem
    obtain ⟨g, hg, rfl⟩ := List.mem_map.mp hmem
    exact hown (ha.stubOwners g hg)
  simp only [fragmentTypes, List.mem_filter, List.mem_append, ha.fields, ha.stubs,
    mem_groupOwners_append, List.map_append, hfields, hstubs, or_false]

/-- **Everything that was to be settled before still is, in the same order.** -/
theorem Appended.items {m m' : Model}
    (hold : ∀ t ∈ groupOwners fields ++ stubs.map StubGroup.owner,
      (build trees).model.table.hasType t = true ∧ m'.table.entryOf? t = m.table.entryOf? t) :
    (itemsOf s m fields stubs).Sublist (itemsOf s m' fields' stubs') := by
  obtain ⟨hfields, hstubs⟩ := List.forall_mem_append.mp hold
  have hgroups : groupByOwner fields' = groupByOwner fields ++ groupByOwner moreFields := by
    rw [ha.fields]
    refine groupByOwner_append fun f hf hmem => ?_
    exact hnames _ _ (ha.owners f hf) (hfields _ hmem).1 rfl
  have hheader : ∀ t, m'.table.entryOf? t = m.table.entryOf? t →
      m'.header t = m.header t ∧ m'.declarationsOf t = m.declarationsOf t := by
    intro t ht
    rw [Model.header, Model.header, Model.declarationsOf, Model.declarationsOf, ht]
    exact ⟨rfl, rfl⟩
  have hfield : ∀ group ∈ groupByOwner fields,
      fieldsItem s m' (PrintGen.stemOf fields' stubs') group =
        fieldsItem s m (PrintGen.stemOf fields stubs) group := by
    intro group hgroup
    obtain ⟨hdeclared, hentry⟩ := hfields group.1 (mem_groupByOwner.mp hgroup).1
    obtain ⟨hhead, hsites⟩ := hheader group.1 hentry
    simp only [fieldsItem, methodsFragment, hhead, hsites, ha.stemOf hnames hdeclared]
  have hstub : ∀ g ∈ stubs, stubItem s m' (PrintGen.stemOf fields' stubs') g =
      stubItem s m (PrintGen.stemOf fields stubs) g := by
    intro g hg
    obtain ⟨hdeclared, hentry⟩ := hstubs _ (List.mem_map_of_mem hg)
    obtain ⟨hhead, hsites⟩ := hheader g.owner hentry
    simp only [stubItem, stubFragment, hhead, hsites, ha.stemOf hnames hdeclared]
  rw [itemsOf, itemsOf, hgroups, ← List.map_congr_left hfield, ← List.map_congr_left hstub]
  refine List.Sublist.append ((List.sublist_append_left _ _).map _) ?_
  rw [ha.stubs]
  exact (List.sublist_append_left _ _).map _

end

theorem fragments_sublist {m m' : Model}
    (h : (itemsOf s m fields stubs).Sublist (itemsOf s m' fields' stubs')) :
    (allFragments s m fields stubs).Sublist (allFragments s m' fields' stubs') := by
  rw [allFragments, allFragments, ← fragmentsIn_itemsOf, ← fragmentsIn_itemsOf]
  exact (h.filterMap Prod.fst).cons_cons _

theorem skipped_sublist {items items' : List Item} (h : items.Sublist items') :
    (skipped s items).Sublist (skipped s items') := by
  rw [skipped, skipped]
  split
  · exact (h.filter _).map _
  · exact .slnil

theorem Enlarged.entryOf? (he : Enlarged root trees tree r r') {t : TypePath}
    (ht : r.model.table.hasType t = true) :
    r'.model.table.entryOf? t = r.model.table.entryOf? t :=
  he.apart.entryOf? ht

/-- What is plain in all trees is plain in some of them. -/
theorem Enlarged.plainNames (he : Enlarged root trees tree r r') (hr : Resolver.found trees = .ok r)
    (hr' : Resolver.found (trees ++ [tree]) = .ok r') (hp : PlainNames (trees ++ [tree])) :
    PlainNames trees := by
  constructor
  · intro t ht
    rw [← Resolver.found_model hr] at ht
    apply hp.types t
    rw [← Resolver.found_model hr', Table.hasType_eq_isSome, he.entryOf? ht,
      ← Table.hasType_eq_isSome]
    exact ht
  · exact fun other ho => hp.methods other (List.mem_append_left _ ho)

end

/-- **Unrelated files do not disturb each other.** When a tree that keeps to a root namespace of its
own is added to a compilation, all fragments and diagnostics of the compilation are produced as
before, in the same order. All trees are assumed to be well-formed, as a grammar delivers them, with
or without error nodes and missing nodes. Another tree may stop the whole pass at a fault. -/
theorem unrelated_tree_keeps_output (root : String) (trees : List SourceTree) (tree : SourceTree)
    (h : Unrelated root trees tree) (hids : ∀ other ∈ trees, other.id = tree.id → other = tree)
    (hmarker : ∀ other ∈ trees ++ [tree], other.id ≠ .marker)
    (hw : ∀ other ∈ trees ++ [tree], other.WellFormed) (hp : PlainNames (trees ++ [tree]))
    (before before' : Trace) :
    ∃ g g' after after', generate .default trees before = .ok g after ∧
      generate .default (trees ++ [tree]) before' = .ok g' after' ∧
      g.fragments.Sublist g'.fragments ∧ g.diagnostics.Sublist g'.diagnostics := by
  obtain ⟨hwt, -⟩ := List.forall_mem_append.mp hw
  obtain ⟨hmt, -⟩ := List.forall_mem_append.mp hmarker
  obtain ⟨r, candidates, fields, stubs, hs⟩ := stages_wellFormed .default hwt
  obtain ⟨r', candidates', fields', stubs', hs'⟩ := stages_wellFormed .default hw
  have he := h.enlarged hids hw hmarker hs.found hs'.found
  have hnames : ∀ t u, (build [tree]).model.table.hasType t = true →
      (build trees).model.table.hasType u = true → t.name ≠ u.name := by
    intro t u ht hu
    obtain ⟨e, he, rfl⟩ := Table.exists_entry ht
    obtain ⟨e', he', rfl⟩ := Table.exists_entry hu
    exact h.names e he e' he'
  obtain ⟨moreFields, moreStubs, happended⟩ := he.appended hs hs'
  have hitems : (itemsOf .default r.model fields stubs).Sublist
      (itemsOf .default r'.model fields' stubs') := by
    refine happended.items hnames fun t ht => ?_
    have hdeclared := he.declared hmt hs ht
    exact ⟨hdeclared, he.entryOf? (he.known hdeclared)⟩
  have hkeys := (hs.keys_nodup_iff (he.plainNames hs.found hs'.found hp)).mpr
    (not_keyClash_default _ _ _)
  have hkeys' := (hs'.keys_nodup_iff hp).mpr (not_keyClash_default _ _ _)
  obtain ⟨g, after, hrun, hfragments, hdiagnostics⟩ := hs.outcome hkeys before
  obtain ⟨g', after', hrun', hfragments', hdiagnostics'⟩ := hs'.outcome hkeys' before'
  refine ⟨g, g', after, after', hrun, hrun', ?_, ?_⟩
  · rw [hfragments, hfragments']
    exact fragments_sublist hitems
  · rw [hdiagnostics, hdiagnostics']
    exact skipped_sublist hitems

namespace Sample

open Marker (node identifier)

/-- A marked field of type `int` with a name of one letter, written from the given place on. -/
def markedField (start : Nat) : Node :=
  node .fieldDeclaration start (start + 34) none [
    node .attributeList start (start + 27) none [
      node .attributeUse (start + 1) (start + 26) none [
        node (.name .qualified) (start + 1) (start + 26) (some .name) [
          identifier (start + 1) (start + 16) (some .qualifier),
          identifier (start + 17) (start + 26) (some .name)]]],
    node .variableDeclaration (start + 28) (start + 33) none [
      node (.other "predefined_type") (start + 28) (start + 31) (some .type) [],
      node .variableDeclarator (start + 32) (start + 33) none [
        identifier (start + 32) (start + 33) (some .name)]]]

/-- A nested class with a marked field. -/
def inner : SourceTree :=
  ⟨.source 1, "inner.cs", "namespace N \x7b class O \x7b class I ".toList ++
    "\x7b [PrintableFields.Printable] int ".toList ++
    "i; \x7d \x7d \x7d".toList, false,
    node (.other "compilation_unit") 0 74 none [
      node .namespaceDeclaration 0 74 none [
        identifier 10 11 (some .name),
        node .declarationList 12 74 (some (.other "body")) [
          node (.typeDeclaration .classType) 14 72 none [
            identifier 20 21 (some .name),
            node .declarationList 22 72 (some (.other "body")) [
              node (.typeDeclaration .classType) 24 70 none [
                identifier 30 31 (some .name),
                node .declarationList 32 70 (some (.other "body")) [markedField 34]]]]]]]⟩

/-- A file in a root namespace of its own, with an attribute that does not exist, marked fields, a
nested class and an error. -/
def foreign : SourceTree :=
  ⟨.source 2, "foreign.cs", "namespace R \x7b partial class U \x7b ".toList ++
    "[Missing] int q; ".toList ++
    "[PrintableFields.Printable] int ".toList ++
    "p; class V \x7b ".toList ++
    "[PrintableFields.Printable] int ".toList ++
    "o; \x7d ? \x7d \x7d".toList, true,
    node (.other "compilation_unit") 0 136 none [
      node .namespaceDeclaration 0 136 none [
        identifier 10 11 (some .name),
        node .declarationList 12 136 (some (.other "body")) [
          node (.typeDeclaration .classType) 14 134 none [
            node .modifier 14 21 none [],
            identifier 28 29 (some .name),
            node .declarationList 30 134 (some (.other "body")) [
              node .fieldDeclaration 32 48 none [
                node .attributeList 32 41 none [
                  node .attributeUse 33 40 none [identifier 33 40 (some .name)]],
                node .variableDeclaration 42 47 none [
                  node (.other "predefined_type") 42 45 (some .type) [],
                  node .variableDeclarator 46 47 none [identifier 46 47 (some .name)]]],
              markedField 49,
              node (.typeDeclaration .classType) 84 130 none [
                identifier 90 91 (some .name),
                node .declarationList 92 130 (some (.other "body")) [markedField 94]],
              node (.wrapper .error) 131 132 none []]]]]]⟩

def nested : List SourceTree :=
  [first, inner]

theorem foreign_unrelated : Unrelated "R" nested foreign := by
  refine ⟨by decide, ⟨?_, ?_, ?_⟩, fun other ho => SourceTree.avoids_of_texts ?_, ?_⟩
  · rw [build_table]
    decide +kernel
  · rw [build_table]
    decide +kernel
  · rw [build_table]
    decide +kernel
  · revert other
    rw [Marker.tree_parts]
    decide +kernel
  · rw [build_table, build_table]
    decide +kernel

theorem foreign_plainNames : PlainNames (nested ++ [foreign]) := by
  apply PlainNames.of_paths
  · rw [Marker.tree_parts]
    decide +kernel
  · decide +kernel

end Sample

theorem unrelated_tree_of_sample :
    ∃ g g' after after', generate .default Sample.nested [] = .ok g after ∧
      generate .default (Sample.nested ++ [Sample.foreign]) [] = .ok g' after' ∧
      g.fragments.Sublist g'.fragments ∧ g.diagnostics.Sublist g'.diagnostics ∧
      g'.keys = ["PrintableFields.PrintableAttribute", "A.Printables", "U.Printables"] ∧
      g'.diagnostics.map Diagnostic.path = ["inner.cs", "foreign.cs"] := by
  have houtput : (generated .default (Sample.nested ++ [Sample.foreign])).toOption.map
      (fun g => (g.keys, g.diagnostics.map Diagnostic.path)) =
      some (["PrintableFields.PrintableAttribute", "A.Printables", "U.Printables"],
        ["inner.cs", "foreign.cs"]) := by
    rw [generated, Resolver.found, Resolver.compiled, Marker.tree_parts]
    decide +kernel
  have hnew : ∀ other ∈ Sample.nested, other.id ≠ Sample.foreign.id := by decide +kernel
  obtain ⟨g, g', after, after', hrun, hrun', hfragments, hdiagnostics⟩ :=
    unrelated_tree_keeps_output "R" Sample.nested Sample.foreign Sample.foreign_unrelated
      (fun other ho hid => absurd hid (hnew other ho)) (by decide +kernel) (by decide +kernel)
      Sample.foreign_plainNames [] []
  rw [generated_of_generate hrun'] at houtput
  obtain ⟨hkeys, hpaths⟩ := Prod.mk.inj (Option.some.inj houtput)
  exact ⟨g, g', after, after', hrun, hrun', hfragments, hdiagnostics, hkeys, hpaths⟩

end PrintGen
