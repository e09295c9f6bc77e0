import PrintGen.Proofs.Stubs

/-!
# Print methods are generated for the marked fields

There are two ways to the fields that get a print method. The pass scans all nodes for annotated
field declarations, looks their fields up by node and groups what carries the marker. One could
also take each type of the model and keep those of its fields that are bound to the marker. Both
select the same fields in the same order.
-/

namespace PrintGen

open Syntax Symbols

/-- Whether one of the attributes of a field is bound to the marker class. -/
def Symbols.BoundField.isMarked (f : BoundField) : Bool :=
  f.classes.contains (some Marker.type)

theorem Resolver.isMarked_eq {trees : List SourceTree} {r : Resolver}
    (h : Resolver.found trees = .ok r) (f : BoundField) : r.isMarked f = f.isMarked := by
  obtain ⟨_, rfl⟩ := Resolver.found_eq h
  rfl

/-- A marked field has an attribute. -/
theorem attributes_of_isMarked {m : Model} {f : BoundField} (hf : f ∈ m.fields)
    (h : f.isMarked = true) : f.field.attributes ≠ [] := by
  intro hnil
  have hlen := dealClasses_length hf
  rw [hnil, List.length_nil, List.length_eq_zero_iff] at hlen
  rw [BoundField.isMarked, hlen] at h
  cases h

/-! ## The scan as a list of sites -/

/-- The candidates for fields stand at the annotated sites of the trees, in order. -/
theorem annotatedFields_sites (tree : SourceTree) :
    tree.annotatedFields.map (fun c => Site.mk c.tree c.node) =
      (tree.root.preorder.map (Site.mk tree)).filter fun s => s.node.isAnnotatedField := by
  rw [SourceTree.annotatedFields, List.map_map, ← Node.occurrences_node, List.map_map,
    List.filter_map]
  rfl

theorem scan_sites {trees : List SourceTree} {stubName : Option String} {candidates : Candidates}
    (h : scan trees stubName = .ok candidates) :
    candidates.fields.map (fun c => Site.mk c.tree c.node) =
      (allSites trees).filter fun s => s.node.isAnnotatedField := by
  obtain ⟨stubs, _, he⟩ := except_bind_ok.mp h
  cases he
  rw [allSites, List.map_flatMap, List.filter_flatMap]
  congr 1
  funext tree
  exact annotatedFields_sites tree

/-- All fields come from the trees, since the marker source adds none. -/
theorem fieldsFrom_sites {trees : List SourceTree} {r : Resolver}
    (hr : Resolver.found trees = .ok r) :
    FieldsFrom (allSites trees) r.model.table.fields := by
  obtain ⟨hfault, rfl⟩ := Resolver.found_eq hr
  obtain ⟨mid, htrees, hmarker⟩ := Resolver.compiled_ok hfault
  obtain ⟨fields, hfields, hfrom⟩ := htrees.fieldsFrom
  have hall : (Resolver.compiled trees).model.table.fields = fields := by
    rw [(Marker.declared hmarker).2.2, hfields]
    rfl
  rw [hall]
  exact hfrom

/-- **The scan leads to the marked fields of the model, each once and in the order of the model.** -/
theorem markedAmong_eq {trees : List SourceTree} {stubName : Option String}
    {candidates : Candidates} {r : Resolver} (hids : (trees.map SourceTree.id).Nodup)
    (hkeys : ∀ tree ∈ trees, KeysDistinct (fun kind => kind = .fieldDeclaration) tree)
    (hscan : scan trees stubName = .ok candidates) (hr : Resolver.found trees = .ok r) :
    r.markedAmong candidates.fields =
      (r.model.fields.filter BoundField.isMarked).map Resolver.confirmed := by
  have hmarked : r.isMarked = BoundField.isMarked := funext (Resolver.isMarked_eq hr)
  have hask := (fieldsFrom_sites hr).blocks.ask BoundField.isMarked [] r.model.fields
    (Model.fields_field _) (fun f hf => attributes_of_isMarked hf)
    (allSites_keys hids hkeys) (fun f hf => by cases hf)
  have hsites : candidates.fields.flatMap (fun c =>
      r.model.declaredFields (c.tree.key c.node)) =
      ((allSites trees).filter fun s => s.node.isAnnotatedField).flatMap fun s =>
        r.model.fields.filter fun f => f.field.origin = some s.key := by
    rw [← scan_sites hscan, List.flatMap_map]
    rfl
  rw [Resolver.markedAmong, hmarked, hsites]
  exact congrArg (List.map Resolver.confirmed) hask

/-- The fields of the model stand in tree order and then in source order. -/
theorem fields_sites {trees : List SourceTree} {r : Resolver} (hr : Resolver.found trees = .ok r) :
    (r.model.fields.map fun f => f.field.site).Sublist (allSites trees) := by
  have hnamed := (fieldsFrom_sites hr).named
  rw [← Model.fields_field, List.map_map] at hnamed
  exact hnamed

/-! ## Groups of confirmed fields -/

theorem confirmed_marked (fs : List BoundField) :
    (fs.map Resolver.confirmed).filter ResolvedField.marked = fs.map Resolver.confirmed := by
  rw [List.filter_eq_self]
  intro f hf
  obtain ⟨g, _, rfl⟩ := List.mem_map.mp hf
  rfl

theorem groupOwners_confirmed (fs : List BoundField) :
    groupOwners (fs.map Resolver.confirmed) = (fs.map fun f => f.field.owner).eraseDups := by
  rw [groupOwners, confirmed_marked, List.map_map]
  rfl

/-- The group of a type holds the names of its marked fields. -/
theorem groupOf_confirmed (m : Model) (t : TypePath) :
    (groupOf ((m.fields.filter BoundField.isMarked).map Resolver.confirmed) t).map
        ResolvedField.name =
      ((m.fieldsOf t).filter BoundField.isMarked).map fun f => f.field.name := by
  rw [groupOf, confirmed_marked, List.filter_map, List.map_map, Model.fieldsOf, List.filter_filter,
    List.filter_filter]
  have hswap : (fun f : BoundField => ((fun f => decide (f.owner = t)) ∘ Resolver.confirmed) f &&
      f.isMarked) = fun f => f.isMarked && decide (f.field.owner = t) := by
    funext f
    exact Bool.and_comm _ _
  rw [hswap]
  rfl

theorem mem_groupOwners_confirmed (m : Model) (t : TypePath) :
    t ∈ groupOwners ((m.fields.filter BoundField.isMarked).map Resolver.confirmed) ↔
      ∃ f ∈ m.fieldsOf t, f.isMarked = true := by
  rw [groupOwners_confirmed, List.mem_eraseDups, List.mem_map]
  constructor
  · rintro ⟨f, hf, rfl⟩
    obtain ⟨hmem, hm⟩ := List.mem_filter.mp hf
    exact ⟨f, List.mem_filter.mpr ⟨hmem, by simp⟩, hm⟩
  · rintro ⟨f, hf, hm⟩
    obtain ⟨hmem, ho⟩ := List.mem_filter.mp hf
    exact ⟨f, List.mem_filter.mpr ⟨hmem, hm⟩, by simpa using ho⟩

/-- The scan leads to every marked field, also if two declarations share a key. -/
theorem confirmed_mem_markedAmong {trees : List SourceTree} {stubName : Option String}
    {candidates : Candidates} {r : Resolver} (hscan : scan trees stubName = .ok candidates)
    (hr : Resolver.found trees = .ok r) {f : BoundField} (hf : f ∈ r.model.fields)
    (hm : f.isMarked = true) : Resolver.confirmed f ∈ r.markedAmong candidates.fields := by
  have hfield : f.field ∈ r.model.table.fields := by
    rw [← Model.fields_field]
    exact List.mem_map_of_mem hf
  -- A field with attributes is found through the declaration that it comes from.
  obtain ⟨s, hs, hbelongs⟩ := (fieldsFrom_sites hr).blocks.site hfield
  obtain ⟨horigin, hannotated⟩ := hbelongs.attributes (attributes_of_isMarked hf hm)
  have hsite : s ∈ candidates.fields.map fun c => Site.mk c.tree c.node := by
    rw [scan_sites hscan]
    exact List.mem_filter.mpr ⟨hs, hannotated⟩
  obtain ⟨c, hc, rfl⟩ := List.mem_map.mp hsite
  rw [← Resolver.isMarked_eq hr] at hm
  refine List.mem_map_of_mem (List.mem_filter.mpr ⟨List.mem_flatMap.mpr ⟨c, hc, ?_⟩, hm⟩)
  exact List.mem_filter.mpr ⟨hf, by simpa using horigin⟩

/-- The scan leads to the owners of the marked fields. -/
theorem mem_groupOwners_markedAmong {trees : List SourceTree} {stubName : Option String}
    {candidates : Candidates} {r : Resolver} (hscan : scan trees stubName = .ok candidates)
    (hr : Resolver.found trees = .ok r) (t : TypePath) :
    t ∈ groupOwners (r.markedAmong candidates.fields) ↔
      ∃ f ∈ r.model.fieldsOf t, f.isMarked = true := by
  constructor
  · intro ht
    rw [Resolver.markedAmong, groupOwners_confirmed, List.mem_eraseDups, List.mem_map] at ht
    obtain ⟨f, hf, rfl⟩ := ht
    obtain ⟨hmem, hm⟩ := List.mem_filter.mp hf
    obtain ⟨c, _, hc⟩ := List.mem_flatMap.mp hmem
    rw [Resolver.isMarked_eq hr] at hm
    exact ⟨f, List.mem_filter.mpr ⟨(List.mem_filter.mp hc).1, by simp⟩, hm⟩
  · rintro ⟨f, hf, hm⟩
    obtain ⟨hmem, ho⟩ := List.mem_filter.mp hf
    obtain rfl : f.field.owner = t := by simpa using ho
    have hin := confirmed_mem_markedAmong hscan hr hmem hm
    exact mem_groupOwners.mpr ⟨Resolver.confirmed f, hin, rfl, rfl⟩

/-- Fields belong to declared types. -/
theorem hasType_of_field {trees : List SourceTree} {r : Resolver}
    (hr : Resolver.found trees = .ok r) {t : TypePath} {f : BoundField}
    (hf : f ∈ r.model.fieldsOf t) : r.model.table.hasType t = true := by
  obtain ⟨hfault, rfl⟩ := Resolver.found_eq hr
  obtain ⟨hmem, ho⟩ := List.mem_filter.mp hf
  have howners := (build_ok hfault).1.ownersDeclared ownersDeclared_empty
  have hfield : f.field ∈ (Resolver.compiled trees).model.table.fields := by
    rw [← Model.fields_field]
    exact List.mem_map_of_mem hmem
  have hown : f.field.owner = t := by simpa using ho
  exact hown ▸ howners f.field hfield

/-- **Print methods are generated for the marked fields of top-level types.** The stages of a pass
lead to the marked fields of the model. Each top-level type with a marked field has one fragment,
under its stem, with a method for each of its marked fields in the order of its fields, which is
tree order and then source order. -/
theorem methods_for_marked_fields {s : Settings} {trees : List SourceTree} {g : Generated}
    {before after : Trace} (hids : (trees.map SourceTree.id).Nodup)
    (hkeys : ∀ tree ∈ trees, KeysDistinct (fun kind => kind = .fieldDeclaration) tree)
    (h : generate s trees before = .ok g after) :
    ∃ (r : Resolver) (candidates : Candidates) (fields : List (ResolvedField TypePath))
      (stubs : List (StubGroup TypePath)) (owners : List TypePath),
      Stages s trees r candidates fields stubs ∧
      r.model = (build (trees ++ [Marker.tree])).model ∧
      fields = (r.model.fields.filter BoundField.isMarked).map Resolver.confirmed ∧
      owners.Nodup ∧
      (∀ t, t ∈ owners ↔ t.isTopLevel = true ∧ r.model.table.hasType t = true ∧
        ∃ f ∈ r.model.fieldsOf t, f.isMarked = true) ∧
      g.fragments = Marker.fragment ::
        (owners.map fun t => methodsFragment s r.model (stemOf fields stubs t) t
          (((r.model.fieldsOf t).filter BoundField.isMarked).map fun f => f.field.name)) ++
        ((stubs.filter fun stub => stub.owner.isTopLevel).map fun stub =>
          stubFragment s r.model (stemOf fields stubs stub.owner) stub) ∧
      ∀ t, ((r.model.fieldsOf t).map fun f => f.field.site).Sublist (allSites trees) := by
  obtain ⟨r, candidates, fields, stubs, hst, _, hg⟩ := generate_ok h
  have hr := hst.found
  have hfields : fields = (r.model.fields.filter BoundField.isMarked).map Resolver.confirmed :=
    hst.fields_eq.trans (markedAmong_eq hids hkeys hst.scanned hr)
  have hmem : ∀ t, t ∈ groupOwners fields ↔ ∃ f ∈ r.model.fieldsOf t, f.isMarked = true := by
    intro t
    rw [hfields]
    exact mem_groupOwners_confirmed r.model t
  refine ⟨r, candidates, fields, stubs, (groupOwners fields).filter TypePath.isTopLevel, hst, ?_,
    hfields, (nodup_eraseDups _).filter _, ?_, ?_, ?_⟩
  · obtain ⟨_, rfl⟩ := Resolver.found_eq hr
    rfl
  · intro t
    rw [List.mem_filter, hmem]
    constructor
    · rintro ⟨⟨f, hf, hm⟩, ht⟩
      exact ⟨ht, hasType_of_field hr hf, f, hf, hm⟩
    · rintro ⟨ht, _, hf⟩
      exact ⟨hf, ht⟩
  · have hnames : ∀ t, (groupOf fields t).map ResolvedField.name =
        ((r.model.fieldsOf t).filter BoundField.isMarked).map fun f => f.field.name := by
      intro t
      rw [hfields]
      exact groupOf_confirmed r.model t
    rw [hg, allFragments, typeFragments]
    simp only [hnames, List.cons_append]
  · intro t
    exact (List.filter_sublist.map _).trans (fields_sites hr)

theorem methods_of_sample : ∃ (g : Generated) (after : Trace) (r : Resolver)
      (fields : List (ResolvedField TypePath)) (stubs : List (StubGroup TypePath)),
    generate .default Sample.trees [] = .ok g after ∧
    r.model = (build (Sample.trees ++ [Marker.tree])).model ∧
    g.fragments = Marker.fragment ::
      [methodsFragment .default r.model (stemOf fields stubs Sample.owner) Sample.owner
        ["x", "y", "z"]] ++
      ((stubs.filter fun stub => stub.owner.isTopLevel).map fun stub =>
        stubFragment .default r.model (stemOf fields stubs stub.owner) stub) := by
  have hrun : (generated .default Sample.trees).toOption.isSome = true := by
    rw [generated, Resolver.found, Resolver.compiled, Marker.tree_parts]
    decide +kernel
  have hmarked : let m := (build (Sample.trees ++ [Marker.tree])).model
      m.table.hasType Sample.owner = true ∧
      ((m.fields.filter BoundField.isMarked).map fun f => f.field.owner).eraseDups =
        [Sample.owner] ∧
      ((m.fieldsOf Sample.owner).filter BoundField.isMarked).map (fun f => f.field.name) =
        ["x", "y", "z"] := by
    rw [Marker.tree_parts]
    decide +kernel
  obtain ⟨g, after, hg⟩ := generate_of_generated hrun []
  obtain ⟨r, _, fields, stubs, owners, _, hmodel, _, hnodup, howners, hfragments, _⟩ :=
    methods_for_marked_fields (by decide +kernel) (by decide +kernel) hg
  obtain ⟨hdeclared, howner, hnames⟩ := hmodel ▸ hmarked
  have hone : owners = [Sample.owner] := by
    have hall : ∀ t, t ∈ owners ↔ t ∈ [Sample.owner] := by
      intro t
      rw [howners, ← mem_groupOwners_confirmed, groupOwners_confirmed, howner,
        List.mem_singleton]
      constructor
      · exact fun h => h.2.2
      · rintro rfl
        exact ⟨rfl, hdeclared, rfl⟩
    exact List.perm_singleton.mp
      ((List.perm_ext_iff_of_nodup hnodup (List.nodup_singleton _)).mpr hall)
  refine ⟨g, after, r, fields, stubs, hg, hmodel, ?_⟩
  rw [hfragments, hone, List.map_singleton, hnames]

end PrintGen
