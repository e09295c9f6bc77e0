import PrintGen.Proofs.MarkerClass
import Mathlib.Data.List.Nodup

/-!
# Confirming candidates

The scan goes over all nodes and asks the model for the fields of each candidate by the key of its
node. As long as no two field declarations share a key, what comes out are the marked fields of the
model, each once and in the order in which the model has them.
-/

namespace PrintGen

open Syntax Symbols

/-! ## Models without a fault -/

namespace Symbols

theorem bindTable_table (table : Table) : (bindTable table).model.table = table := by
  rw [bindTable]
  generalize bindEach (fun b => bindType table b.name) table.bases .none = found
  obtain ⟨bound, fault, findings⟩ := found
  cases fault <;> rfl

/-- The table after all declarations, or as far as they got. -/
def declaredTable (trees : List SourceTree) : Table :=
  match declareTrees trees .empty with
  | .error _ table => table
  | .ok _ table => table

/-- Binding names leaves the table as it is. -/
theorem build_table (trees : List SourceTree) : (build trees).model.table = declaredTable trees := by
  rw [build, declaredTable]
  cases declareTrees trees .empty with
  | error fault table => rfl
  | ok u table =>
    have hbound := bindTable_table table
    cases hb : (bindTable table).fault with
    | some fault =>
      simp only [hb]
      exact hbound
    | none =>
      simp only [hb]
      exact hbound

/-- A model that was built without a fault comes from a pass that returned. -/
theorem build_ok {trees : List SourceTree} (h : (build trees).fault = none) :
    DeclaresTrees trees .empty (build trees).model.table ∧
      (bindTable (build trees).model.table).fault = none ∧
      (build trees).model = (bindTable (build trees).model.table).model := by
  rw [build] at h ⊢
  cases hd : declareTrees trees .empty with
  | error fault table => simp [hd] at h
  | ok u table =>
    simp only [hd] at h ⊢
    cases hb : (bindTable table).fault with
    | some fault => simp [hb] at h
    | none =>
      simp only [bindTable_table, hb, and_true]
      exact declareTrees_iff.mp hd

/-- After a pass that returns, the names of the table are bound. -/
theorem build_declared {trees : List SourceTree} {table : Table}
    (h : DeclaresTrees trees .empty table) : (build trees).fault = (bindTable table).fault ∧
      (build trees).model = (bindTable table).model := by
  rw [build, declareTrees_iff.mpr h]
  cases hb : (bindTable table).fault <;> simp [hb]

theorem dealClasses_field (fields : List FieldEntry) (classes : List (Option TypePath)) :
    (dealClasses fields classes).map BoundField.field = fields := by
  induction fields generalizing classes with
  | nil => rfl
  | cons f rest ih => simp only [dealClasses, List.map_cons, ih]

theorem dealClasses_length {fields : List FieldEntry} {classes : List (Option TypePath)}
    {b : BoundField} (h : b ∈ dealClasses fields classes) :
    b.classes.length = b.field.attributes.length := by
  induction fields generalizing classes with
  | nil => cases h
  | cons f rest ih =>
    rw [dealClasses] at h
    rcases List.mem_cons.mp h with rfl | hr
    · simp only [List.length_append, List.length_take, List.length_replicate]
      omega
    · exact ih hr

namespace Model

theorem fields_field (m : Model) : m.fields.map BoundField.field = m.table.fields :=
  dealClasses_field _ _

end Model

/-- The key of the node of a site. -/
def Site.key (s : Site) : NodeKey :=
  s.tree.key s.node

/-- No two nodes of these kinds in a tree share a key. -/
def KeysDistinct (p : Kind → Bool) (tree : SourceTree) : Prop :=
  ((tree.root.preorder.filter fun node => p node.kind).map tree.key).Nodup

instance (p : Kind → Bool) (tree : SourceTree) : Decidable (KeysDistinct p tree) :=
  inferInstanceAs (Decidable (List.Nodup _))

theorem siteKeys_eq (p : Kind → Bool) (tree : SourceTree) :
    (((tree.root.preorder.map (Site.mk tree)).filter fun s => p s.node.kind).map Site.key) =
      (tree.root.preorder.filter fun node => p node.kind).map tree.key := by
  rw [List.filter_map, List.map_map]
  rfl

/-- Distinct keys in each tree and distinct trees make all keys distinct. -/
theorem allSites_keys {p : Kind → Bool} {trees : List SourceTree}
    (hids : (trees.map SourceTree.id).Nodup) (hkeys : ∀ tree ∈ trees, KeysDistinct p tree) :
    (((allSites trees).filter fun s => p s.node.kind).map Site.key).Nodup := by
  induction trees with
  | nil => exact List.nodup_nil
  | cons tree rest ih =>
    rw [List.map_cons, List.nodup_cons] at hids
    rw [allSites, List.flatMap_cons, List.filter_append, List.map_append, siteKeys_eq]
    refine List.Nodup.append (hkeys tree (by simp))
      (ih hids.2 fun t ht => hkeys t (by simp [ht])) ?_
    -- The keys of two trees differ in the tree.
    rw [List.disjoint_left]
    intro key hk hr
    obtain ⟨node, _, rfl⟩ := List.mem_map.mp hk
    obtain ⟨s, hs, he⟩ := List.mem_map.mp hr
    obtain ⟨other, ho, hmem⟩ := List.mem_flatMap.mp (List.mem_filter.mp hs).1
    obtain ⟨node', _, rfl⟩ := List.mem_map.mp hmem
    have hid : other.id = tree.id := congrArg NodeKey.tree he
    exact hids.1 (hid ▸ List.mem_map_of_mem ho)

theorem Blocks.origin_mem {sites : List Site} {fields : List FieldEntry} (h : Blocks sites fields)
    {f : FieldEntry} (hf : f ∈ fields) {key : NodeKey} (ho : f.origin = some key) :
    ∃ s ∈ sites, s.node.kind = .fieldDeclaration ∧ s.key = key := by
  induction h with
  | nil => cases hf
  | @cons s sites block fields hb hr ih =>
    rcases List.mem_append.mp hf with hblock | hrest
    · rcases (hb f hblock).origin with hnone | ⟨hsome, hk⟩
      · rw [hnone] at ho
        cases ho
      · rw [hsome] at ho
        exact ⟨s, by simp, hk, Option.some.inj ho⟩
    · obtain ⟨s', hs', h'⟩ := ih hrest
      exact ⟨s', by simp [hs'], h'⟩

theorem isAnnotatedField_kind {node : Node} (h : node.isAnnotatedField = true) :
    node.kind = .fieldDeclaration := by
  rw [Node.isAnnotatedField, Bool.and_eq_true, decide_eq_true_eq] at h
  exact h.1

/-- Whether a site is a field declaration. -/
def Site.isField (s : Site) : Bool :=
  s.node.kind = .fieldDeclaration

section

variable {s : Site} {front mine others : List BoundField} {marked : BoundField → Bool}

/-- Among other fields, only those in the middle come from a site. -/
theorem filter_origin_between (hf : ∀ b ∈ front, b.field.origin ≠ some s.key)
    (ho : ∀ b ∈ others, b.field.origin ≠ some s.key) :
    (front ++ (mine ++ others)).filter (fun b => b.field.origin = some s.key) =
      mine.filter fun b => b.field.origin = some s.key := by
  have hnone : ∀ {fields : List BoundField}, (∀ b ∈ fields, b.field.origin ≠ some s.key) →
      fields.filter (fun b => decide (b.field.origin = some s.key)) = [] := by
    intro fields h
    rw [List.filter_eq_nil_iff]
    intro b hb
    simpa using h b hb
  rw [List.filter_append, List.filter_append, hnone hf, hnone ho, List.nil_append,
    List.append_nil]

/-- A field of a site with attributes has the site as its origin. -/
theorem filter_origin_marked (hb : ∀ b ∈ mine, Belongs s b.field)
    (hm : ∀ b ∈ mine, marked b = true → b.field.attributes ≠ []) :
    (mine.filter fun b => b.field.origin = some s.key).filter marked = mine.filter marked := by
  rw [List.filter_filter]
  refine List.filter_congr fun b hmem => ?_
  cases hmarked : marked b with
  | false => rfl
  | true =>
    rw [Bool.true_and]
    exact decide_eq_true ((hb b hmem).attributes (hm b hmem hmarked)).1

/-- A site without attributes has no field with attributes. -/
theorem filter_marked_plain (hb : ∀ b ∈ mine, Belongs s b.field)
    (hm : ∀ b ∈ mine, marked b = true → b.field.attributes ≠ [])
    (ha : s.node.isAnnotatedField = false) : mine.filter marked = [] := by
  rw [List.filter_eq_nil_iff]
  intro b hmem hmarked
  have hannotated := ((hb b hmem).attributes (hm b hmem hmarked)).2
  rw [ha] at hannotated
  cases hannotated

end

/-- **Asking for the fields of each annotated site, in order, gives the fields that satisfy a
condition on their attributes.** The fields in front come from elsewhere: their origins are none of
the sites. -/
theorem Blocks.ask {sites : List Site} {fields : List FieldEntry} (h : Blocks sites fields)
    (marked : BoundField → Bool) (front own : List BoundField)
    (hown : own.map BoundField.field = fields)
    (hmarked : ∀ b ∈ own, marked b = true → b.field.attributes ≠ [])
    (hkeys : ((sites.filter Site.isField).map Site.key).Nodup)
    (hfront : ∀ b ∈ front, ∀ s ∈ sites, s.isField = true → b.field.origin ≠ some s.key) :
    ((sites.filter fun s => s.node.isAnnotatedField).flatMap fun s =>
      (front ++ own).filter fun b => b.field.origin = some s.key).filter marked =
      own.filter marked := by
  induction h generalizing front own with
  | nil =>
    rw [List.map_eq_nil_iff] at hown
    subst hown
    rfl
  | @cons s sites block fields hb hr ih =>
    obtain ⟨mine, others, rfl, hmine, hothers⟩ := List.map_eq_append_iff.mp hown
    obtain ⟨hmarkedMine, hmarkedOthers⟩ := List.forall_mem_append.mp hmarked
    have hbelongs : ∀ b ∈ mine, Belongs s b.field := by
      intro b hbm
      exact hb b.field (hmine ▸ List.mem_map_of_mem hbm)
    -- A later field declaration has another key.
    have hfresh : s.isField = true → ∀ t ∈ sites, t.isField = true → t.key ≠ s.key := by
      intro hs t ht htf he
      rw [List.filter_cons_of_pos hs, List.map_cons, List.nodup_cons] at hkeys
      exact hkeys.1 (he ▸ List.mem_map_of_mem (List.mem_filter.mpr ⟨ht, htf⟩))
    have hlater : ((sites.filter Site.isField).map Site.key).Nodup := by
      refine hkeys.sublist ?_
      exact ((List.sublist_cons_self s sites).filter _).map _
    have hpassed : ∀ b ∈ front ++ mine, ∀ t ∈ sites, t.isField = true →
        b.field.origin ≠ some t.key := by
      intro b hbm t ht htf ho
      rcases List.mem_append.mp hbm with hf | hm
      · exact hfront b hf t (by simp [ht]) htf ho
      · rcases (hbelongs b hm).origin with hnone | ⟨hsome, hk⟩
        · rw [hnone] at ho
          cases ho
        · rw [hsome] at ho
          exact hfresh (by simpa [Site.isField] using hk) t ht htf (Option.some.inj ho).symm
    have htail := ih (front ++ mine) others hothers hmarkedOthers hlater hpassed
    rw [List.append_assoc] at htail
    rw [List.filter_append, ← htail]
    cases ha : s.node.isAnnotatedField with
    | true =>
      have hs : s.isField = true := by simpa [Site.isField] using isAnnotatedField_kind ha
      have hrest : ∀ b ∈ others, b.field.origin ≠ some s.key := by
        intro b hbm ho
        obtain ⟨t, ht, htk, hte⟩ :=
          hr.origin_mem (hothers ▸ List.mem_map_of_mem (f := BoundField.field) hbm) ho
        exact hfresh hs t ht (by simpa [Site.isField] using htk) hte
      rw [List.filter_cons_of_pos (p := fun s : Site => s.node.isAnnotatedField) ha,
        List.flatMap_cons, List.filter_append,
        filter_origin_between (fun b hbm => hfront b hbm s List.mem_cons_self hs) hrest,
        filter_origin_marked hbelongs hmarkedMine]
    | false =>
      rw [List.filter_cons_of_neg (p := fun s : Site => s.node.isAnnotatedField) (by simp [ha]),
        filter_marked_plain hbelongs hmarkedMine ha, List.nil_append]

end Symbols

/-! ## What a resolver finds -/

namespace Resolver

/-- The model of the given trees and the marker source. -/
def compiled (trees : List SourceTree) : Built :=
  build (trees ++ [Marker.tree])

/-- The resolver for a list of trees, or the fault that ends the building of its model. -/
def found (trees : List SourceTree) : Except Fault Resolver :=
  match (compiled trees).fault with
  | some fault => .error fault
  | none => .ok ⟨(compiled trees).model, some Marker.type⟩

/-- The trees alone are declared first; then the marker source adds its class, but no field. -/
theorem compiled_ok {trees : List SourceTree} (h : (compiled trees).fault = none) :
    ∃ mid, DeclaresTrees trees .empty mid ∧
      DeclaresTree Marker.tree mid (compiled trees).model.table := by
  obtain ⟨mid, htrees, hmarker⟩ := (build_ok h).1.split
  cases hmarker with
  | cons ht hr =>
    cases hr
    exact ⟨mid, htrees, ht⟩

theorem found_eq {trees : List SourceTree} {r : Resolver} (h : found trees = .ok r) :
    (compiled trees).fault = none ∧
      r = ⟨(compiled trees).model, some Marker.type⟩ := by
  rw [found] at h
  cases hf : (compiled trees).fault with
  | some fault =>
    rw [hf] at h
    cases h
  | none =>
    rw [hf] at h
    exact ⟨rfl, (Except.ok.inj h).symm⟩

theorem found_model {trees : List SourceTree} {r : Resolver} (h : found trees = .ok r) :
    r.model = (compiled trees).model := by
  rw [(found_eq h).2]

theorem ofTrees_gives (trees : List SourceTree) :
    Traced.Gives (ofTrees trees) (found trees) := by
  have hmodel : Traced.Gives ((Compilation.ofTrees trees).addTrees [Marker.tree]).model.2
      (match (compiled trees).fault with
        | some fault => .error fault
        | none => .ok (compiled trees).model) := by
    refine Gives.after (a := ()) (Gives.of_modify fun _ _ => trivial) ?_
    change Traced.Gives (match (compiled trees).fault with
      | some fault => throw fault
      | none => pure (compiled trees).model) _
    cases (compiled trees).fault with
    | some fault => exact Gives.throw fault
    | none => exact Gives.pure _
  cases hf : (compiled trees).fault with
  | some fault =>
    rw [hf] at hmodel
    rw [found, hf]
    exact hmodel.bind (w := fun _ => .error fault) fun m hm => by cases hm
  | none =>
    obtain ⟨mid, _, hmarker⟩ := compiled_ok hf
    obtain ⟨hn, ht, _⟩ := Marker.declared hmarker
    rw [hf] at hmodel
    rw [found, hf]
    refine Gives.after hmodel ?_
    have hlookup := Traced.ofExcept_gives ((compiled trees).model.table.typeByName Marker.metadataName)
    rw [Marker.typeByName hn ht] at hlookup
    rw [Marker.typeByName hn ht]
    exact Gives.after hlookup (Gives.pure _)

theorem found_of_gives {trees : List SourceTree} {r : Resolver}
    (h : Traced.Gives (ofTrees trees) (.ok r)) : found trees = .ok r :=
  Gives.unique (s := []) trivial (ofTrees_gives trees) h

/-- A marked field as the groups take it. -/
def confirmed (f : BoundField) : ResolvedField TypePath :=
  ⟨f.field.owner, f.field.name, true⟩

theorem resolveField_gives (r : Resolver) (f : BoundField) :
    Traced.Gives (r.resolveField f) (.ok (if r.isMarked f then some (confirmed f) else none)) := by
  rw [resolveField]
  split
  · exact Gives.pure _
  · exact Gives.after (report_gives _ _ _) (Gives.pure none)

theorem resolveFields_gives (r : Resolver) (candidates : List Candidate) :
    Traced.Gives (r.resolveFields candidates)
      (.ok (((candidates.flatMap fun c => r.model.declaredFields (c.tree.key c.node)).filter
        r.isMarked).map confirmed)) := by
  rw [resolveFields]
  generalize (candidates.flatMap fun c => r.model.declaredFields (c.tree.key c.node)) = declared
  have hall := Gives.mapM fun f (_ : f ∈ declared) => r.resolveField_gives f
  have hpure : declared.mapM (fun f =>
      (Except.ok (if r.isMarked f then some (confirmed f) else none) :
        Except Fault (Option (ResolvedField TypePath)))) =
      .ok (declared.map fun f => if r.isMarked f then some (confirmed f) else none) :=
    List.mapM_pure
  rw [hpure] at hall
  have hsome : (declared.map fun f => if r.isMarked f then some (confirmed f) else none).filterMap id =
      (declared.filter r.isMarked).map confirmed := by
    rw [List.filterMap_map, ← List.filterMap_eq_map, ← List.filterMap_eq_filter,
      List.filterMap_filterMap]
    congr 1
    funext f
    simp only [Function.comp_apply, id_eq, Option.guard]
    split <;> rfl
  rw [← hsome]
  exact Gives.after hall (Gives.pure _)

/-- The first stub of each type, in order of the stubs. Types in `seen` are left out. -/
def firstStubs (r : Resolver) (seen : List TypePath) : List Candidate → List (TypePath × Candidate)
  | [] => []
  | c :: rest =>
    match r.model.containingType? c.tree c.owner with
    | none => r.firstStubs seen rest
    | some t =>
      if seen.contains t then r.firstStubs seen rest else (t, c) :: r.firstStubs (t :: seen) rest

theorem stubGroups_gives (r : Resolver) (seen : List TypePath) (candidates : List Candidate) :
    Traced.Gives (r.stubGroups seen candidates)
      ((r.firstStubs seen candidates).mapM fun stub => r.stubGroup stub.1 stub.2) := by
  induction candidates generalizing seen with
  | nil => exact Gives.pure []
  | cons c rest ih =>
    rw [stubGroups, firstStubs]
    cases r.model.containingType? c.tree c.owner with
    | none => exact Gives.after (report_gives _ _ _) (ih seen)
    | some t =>
      dsimp only
      split
      · exact ih seen
      · rw [List.mapM_cons]
        refine Gives.bind (Traced.ofExcept_gives (r.stubGroup t c)) fun group _ => ?_
        exact Gives.bind (ih (t :: seen)) fun groups _ => Gives.pure _

end Resolver

end PrintGen
