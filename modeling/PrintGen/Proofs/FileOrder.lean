import PrintGen.Proofs.Alike
import PrintGen.Proofs.Keys

/-!
# The order of files does not matter

Where the declarations of a type agree on its kind, at most one of them names a base, and no alias
is given away twice for all files, trees can be declared in any order: each of them makes the same
records, and the tables are alike. The models are then the same up to the order of fields, and so
is what is generated from them.
-/

namespace PrintGen

open Syntax Symbols

namespace Symbols

/-- The declarations of a type do not contradict each other, and neither do global directives. -/
structure Consistent (table : Table) : Prop where
  kinds : ∀ e ∈ table.types, ∀ s ∈ e.declarations, s.node.typeKind? = some e.kind
  bases : ∀ e ∈ table.types,
    (e.declarations.filter fun s => s.node.baseName?.isSome).length ≤ 1
  aliases : (table.globals.filterMap Using.aliasName).Nodup

instance (table : Table) : Decidable (Consistent table) :=
  decidable_of_iff
    ((∀ e ∈ table.types, ∀ s ∈ e.declarations, s.node.typeKind? = some e.kind) ∧
      (∀ e ∈ table.types,
        (e.declarations.filter fun s => s.node.baseName?.isSome).length ≤ 1) ∧
      (table.globals.filterMap Using.aliasName).Nodup)
    ⟨fun h => ⟨h.1, h.2.1, h.2.2⟩, fun h => ⟨h.kinds, h.bases, h.aliases⟩⟩

theorem entryOf?_of_site {table : Table} {t : TypePath} {s : Site} (h : s ∈ table.sitesOf t) :
    ∃ e ∈ table.types, table.entryOf? t = some e ∧ s ∈ e.declarations := by
  rw [Table.sitesOf] at h
  cases he : table.entryOf? t with
  | none =>
    rw [he] at h
    cases h
  | some e =>
    rw [he] at h
    exact ⟨e, List.mem_of_find?_eq_some he, rfl, h⟩

theorem Consistent.kindOf? {table : Table} (h : Consistent table) (t : TypePath) :
    ∀ s ∈ table.sitesOf t, ∃ kind, table.kindOf? t = some kind ∧ s.node.typeKind? = some kind := by
  intro s hs
  obtain ⟨e, hmem, he, hs'⟩ := entryOf?_of_site hs
  exact ⟨e.kind, by rw [Table.kindOf?, he]; rfl, h.kinds e hmem s hs'⟩

theorem Consistent.sitesOf {table : Table} (h : Consistent table) (t : TypePath) :
    ((table.sitesOf t).filter fun s => s.node.baseName?.isSome).length ≤ 1 := by
  rw [Table.sitesOf]
  cases he : table.entryOf? t with
  | none => simp
  | some e => exact h.bases e (List.mem_of_find?_eq_some he)

/-! ## Lists put together in another order -/

theorem eq_of_perm_of_length {α : Type} {as bs : List α} (h : as.Perm bs) (hl : as.length ≤ 1) :
    as = bs := by
  match as, h, hl with
  | [], h, _ => exact h.nil_eq
  | [a], h, _ => exact (List.perm_singleton.mp h.symm).symm

theorem head?_eq_of_perm {α β : Type} {f : α → β} {common : Option β} {as bs : List α}
    (h : as.Perm bs) (hf : ∀ a ∈ as, common = some (f a)) : as.head?.map f = bs.head?.map f := by
  match as, bs, h with
  | [], bs, h => rw [h.nil_eq]
  | a :: rest, [], h => cases h.eq_nil
  | a :: rest, b :: rest', h =>
    have ha := hf a (by simp)
    have hb := hf b (h.mem_iff.mpr (by simp))
    rw [List.head?_cons, List.head?_cons, Option.map_some, Option.map_some, ← ha, ← hb]

/-- If only one piece has something in it, the order of the pieces does not matter. -/
theorem flatMap_eq_of_perm {α β : Type} {f : α → List β} {as bs : List α} (h : as.Perm bs)
    (ha : as.Pairwise fun a b => f a = [] ∨ f b = []) : as.flatMap f = bs.flatMap f := by
  induction h with
  | nil => rfl
  | cons a _ ih => rw [List.flatMap_cons, List.flatMap_cons, ih (List.pairwise_cons.mp ha).2]
  | swap a b rest =>
    simp only [List.flatMap_cons]
    rcases (List.pairwise_cons.mp ha).1 a (by simp) with hb | ha
    · rw [hb, List.nil_append, List.nil_append]
    · rw [ha, List.nil_append, List.nil_append]
  | trans hab _ ih ih' =>
    exact (ih ha).trans (ih' (hab.pairwise ha Or.symm))

/-- Pieces that belong to one tree are apart, since no two trees have the same identity. -/
theorem flatMap_eq_of_tree {β : Type} {f : SourceTree → List β} {trees others : List SourceTree}
    (h : trees.Perm others) (hids : (trees.map SourceTree.id).Nodup) (id : TreeId)
    (hf : ∀ tree ∈ trees, tree.id ≠ id → f tree = []) : trees.flatMap f = others.flatMap f := by
  refine flatMap_eq_of_perm h ?_
  have hne : trees.Pairwise fun a b => a.id ≠ b.id := List.pairwise_map.mp hids
  refine hne.imp_of_mem ?_
  intro a b ha hb hab
  by_cases hid : a.id = id
  · exact .inr (hf b hb fun he => hab (hid.trans he.symm))
  · exact .inl (hf a ha hid)

/-! ## Alike tables -/

section

variable {kinds : TypePath → Option TypeKind} {trees others : List SourceTree}
  {records : SourceTree → List Event}

theorem declarationsOf_perm (hp : trees.Perm others) (t : TypePath) :
    (declarationsOf (trees.flatMap records) t).Perm (declarationsOf (others.flatMap records) t) :=
  ((hp.flatMap_right records).filterMap _).filter _

theorem declarationsAt_perm (hp : trees.Perm others) (hids : (trees.map SourceTree.id).Nodup)
    (hadds : ∀ tree ∈ trees, Adds kinds tree (records tree)) (key : NodeKey) :
    declarationsAt (trees.flatMap records) key = declarationsAt (others.flatMap records) key := by
  have hpieces : ∀ ts : List SourceTree, declarationsAt (ts.flatMap records) key =
      ts.flatMap fun tree => declarationsAt (records tree) key := by
    intro ts
    rw [declarationsAt, declarationsIn, List.filterMap_flatMap, List.filter_flatMap]
    rfl
  rw [hpieces, hpieces]
  refine flatMap_eq_of_tree hp hids key.tree ?_
  intro tree ht hne
  rw [declarationsAt, List.filter_eq_nil_iff]
  intro d hd
  obtain ⟨e, he, hde⟩ := List.mem_filterMap.mp hd
  have htree := ((hadds tree ht).sent e he).declaration hde
  have hkey : d.site.key.tree = tree.id := by
    rw [← htree]
    rfl
  simp only [decide_eq_true_eq]
  exact fun hk => hne (hk ▸ hkey.symm)

theorem locals_perm (hp : trees.Perm others) (hids : (trees.map SourceTree.id).Nodup)
    (hadds : ∀ tree ∈ trees, Adds kinds tree (records tree)) (mark : Mark) :
    ((trees.flatMap records).filterMap Event.using?).filter (fun u => u.frame = some mark) =
      ((others.flatMap records).filterMap Event.using?).filter fun u => u.frame = some mark := by
  rw [List.filterMap_flatMap, List.filter_flatMap, List.filterMap_flatMap, List.filter_flatMap]
  refine flatMap_eq_of_tree hp hids mark.tree ?_
  intro tree ht hne
  rw [List.filter_eq_nil_iff]
  intro u hu
  obtain ⟨e, he, hue⟩ := List.mem_filterMap.mp hu
  have hframe := (((hadds tree ht).sent e he).using hue).2 mark
  simp only [decide_eq_true_eq]
  exact fun hf => hne (hframe hf).symm

/-- **Trees that make the same records in any order make tables that are alike.** -/
theorem alike_of_perm (hp : trees.Perm others) (hids : (trees.map SourceTree.id).Nodup)
    (hadds : ∀ tree ∈ trees, Adds kinds tree (records tree))
    (hc : Consistent (Table.empty.after (trees.flatMap records))) :
    Alike (Table.empty.after (trees.flatMap records))
      (Table.empty.after (others.flatMap records)) := by
  have hevents := hp.flatMap_right records
  have hglobals : (Table.empty.after (trees.flatMap records)).globals.Perm
      (Table.empty.after (others.flatMap records)).globals := by
    rw [Table.globals, Table.globals, Table.after_usings, Table.after_usings]
    exact ((hevents.filterMap _).append_left _).filter _
  refine ⟨⟨Table.after_paths_nodup _ _ List.nodup_nil, Table.after_paths_nodup _ _ List.nodup_nil⟩,
    ?_, ?_, ?_, hglobals, ?_, ?_, ?_, ?_⟩
  · intro t
    have huniform : ∀ d ∈ declarationsOf (trees.flatMap records) t, kinds t = some d.kind := by
      intro d hd
      obtain ⟨hmem, rfl⟩ := mem_declarationsOf.mp hd
      obtain ⟨e, he, hde⟩ := List.mem_filterMap.mp hmem
      obtain ⟨tree, ht, het⟩ := List.mem_flatMap.mp he
      exact (hadds tree ht).uniform d (List.mem_filterMap.mpr ⟨e, het, hde⟩)
    rw [Table.after_kindOf?, Table.after_kindOf?,
      head?_eq_of_perm (declarationsOf_perm hp t) huniform]
  · intro n
    rw [Bool.eq_iff_iff, Table.after_hasNamespace, Table.after_hasNamespace]
    simp only [hevents.mem_iff]
  · intro mark
    rw [Table.locals, Table.locals, Table.after_usings, Table.after_usings, List.filter_append,
      List.filter_append, locals_perm hp hids hadds]
  · intro name
    refine eq_of_perm_of_length (hglobals.filter _) ?_
    have hcount := List.nodup_iff_count_le_one.mp hc.aliases name
    rw [List.count_filterMap, List.countP_eq_length_filter] at hcount
    simpa only [beq_eq_decide] using hcount
  · intro t
    have hlength : ((declarationsOf (trees.flatMap records) t).filterMap
        Declaration.base?).length ≤ 1 := by
      have hsites := hc.sitesOf t
      rw [Table.after_sitesOf, List.filter_append, List.filter_map, List.length_append,
        List.length_map] at hsites
      have hnamed : ∀ d : Declaration, d.base?.isSome = d.site.node.baseName?.isSome :=
        fun d => Option.isSome_map
      rw [List.length_filterMap_eq_countP, List.countP_eq_length_filter]
      simp only [hnamed]
      exact (Nat.le_add_left _ _).trans hsites
    rw [Table.after_base?, Table.after_base?, ← List.head?_filterMap, ← List.head?_filterMap,
      eq_of_perm_of_length ((declarationsOf_perm hp t).filterMap _) hlength]
  · intro key
    rw [Table.after_typeOfNode?, Table.after_typeOfNode?, declarationsAt_perm hp hids hadds]
  · rw [Table.after_fields, Table.after_fields]
    exact (hevents.flatMap_right _).append_left _

end

/-- **Trees can be declared in any order.** -/
theorem DeclaresTrees.alike {trees others : List SourceTree} {last : Table}
    (h : DeclaresTrees trees .empty last) (hp : trees.Perm others)
    (hids : (trees.map SourceTree.id).Nodup) (hc : Consistent last) :
    ∃ last', DeclaresTrees others .empty last' ∧ Alike last last' := by
  have hadds := h.adds hids (fun tree _ => fresh_empty tree) hc.kindOf?
  have hall : ∀ tree, ∃ es, tree ∈ trees → Adds last.kindOf? tree es := by
    intro tree
    by_cases ht : tree ∈ trees
    · obtain ⟨es, hes⟩ := hadds tree ht
      exact ⟨es, fun _ => hes⟩
    · exact ⟨[], fun hmem => absurd hmem ht⟩
  choose records hrecords using hall
  have hbelow : Below last.kindOf? .empty := by
    intro t kind hk
    cases hk
  have hsame := h.unique
    (declaresTrees_of_adds hrecords hids (fun tree _ => fresh_empty tree) hbelow)
  rw [hsame] at hc
  have hothers := declaresTrees_of_adds (fun tree ht => hrecords tree (hp.mem_iff.mpr ht))
    ((hp.map SourceTree.id).nodup_iff.mp hids) (fun tree _ => fresh_empty tree) hbelow
  exact ⟨_, hothers, hsame ▸ alike_of_perm hp hids hrecords hc⟩

/-- One more tree keeps tables alike. -/
theorem Alike.declaresTree {tree : SourceTree} {table other last : Table}
    (h : Alike table other) (hf : Fresh tree table) (hf' : Fresh tree other)
    (hd : DeclaresTree tree table last) :
    ∃ last', DeclaresTree tree other last' ∧ Alike last last' := by
  obtain ⟨es, hes⟩ := hd.replays
  have hfits : Fits tree none es table other := by
    refine ⟨⟨hf.1.trans hf'.1.symm, hf.2.trans hf'.2.symm⟩, ?_, fun t ht => by cases ht⟩
    intro d _
    rw [h.kinds]
  exact ⟨_, hes.again other hfits, hes.result ▸ h.after es⟩

end Symbols

/-! ## What is generated -/

section

variable {trees others : List SourceTree}

/-- Two models of the same trees in another order. -/
structure Reordered (trees others : List SourceTree) (m other : Model) : Prop where
  perm : trees.Perm others
  alike : Alike m.table other.table
  model : SameModel m other

theorem Resolver.found_reordered (hp : trees.Perm others)
    (hids : (trees.map SourceTree.id).Nodup) (hmarker : ∀ tree ∈ trees, tree.id ≠ .marker)
    (hw : ∀ tree ∈ trees, tree.WellFormed) (hc : Consistent (build trees).model.table)
    {r r' : Resolver} (hr : Resolver.found trees = .ok r) (hr' : Resolver.found others = .ok r') :
    Reordered trees others r.model r'.model := by
  have hw' : ∀ tree ∈ others, tree.WellFormed := fun tree ht => hw tree (hp.mem_iff.mpr ht)
  obtain ⟨_, hfound, hbound, _, hdeclares⟩ := Resolver.found_wellFormed hw
  obtain ⟨_, hfound', hbound', _, hdeclares'⟩ := Resolver.found_wellFormed hw'
  obtain rfl := Except.ok.inj (hr.symm.trans hfound)
  obtain rfl := Except.ok.inj (hr'.symm.trans hfound')
  obtain ⟨mid, htrees, hlast⟩ := hdeclares.split
  obtain ⟨mid', htrees', hlast'⟩ := hdeclares'.split
  rw [(build_wellFormed hw).2.1.unique htrees] at hc
  obtain ⟨_, hothers, halike⟩ := htrees.alike hp hids hc
  obtain rfl := hothers.unique htrees'
  -- The marker source comes last in both orders.
  have hne : ∀ tree ∈ others, tree.id ≠ .marker := fun tree ht => hmarker tree (hp.mem_iff.mpr ht)
  cases hlast with
  | cons ht hnil =>
    cases hnil
    cases hlast' with
    | cons ht' hnil' =>
      cases hnil'
      obtain ⟨_, hd, hfinal⟩ := halike.declaresTree
        (htrees.fresh (fresh_empty Marker.tree) hmarker)
        (htrees'.fresh (fresh_empty Marker.tree) hne) ht
      obtain rfl := hd.unique ht'
      refine ⟨hp, hfinal, ?_⟩
      rw [hbound, hbound']
      exact hfinal.bound

variable {s : Settings} {r r' : Resolver} {candidates candidates' : Candidates}
  {fields fields' : List (ResolvedField TypePath)} {stubs stubs' : List (StubGroup TypePath)}

theorem Reordered.hasMarked {m other : Model} (h : Reordered trees others m other)
    (t : TypePath) : HasMarked m t ↔ HasMarked other t := by
  have hfields : ∀ f, f ∈ m.fieldsOf t ↔ f ∈ other.fieldsOf t := fun f =>
    (h.model.fields.filter _).mem_iff
  simp only [HasMarked, hfields]

theorem Reordered.hasStub {m other : Model} (h : Reordered trees others m other)
    (t : TypePath) : HasStub s trees m t ↔ HasStub s others other t := by
  have hplaces : ∀ q, q ∈ stubPlaces trees s.stubName.string? ↔
      q ∈ stubPlaces others s.stubName.string? := fun q =>
    ((h.perm.flatMap_right _).filter _).mem_iff
  simp only [HasStub, hplaces, Table.ownerAt?, h.alike.nodes]

theorem Stages.mem_fragmentTypes_iff (h : Stages s trees r candidates fields stubs)
    (t : TypePath) : t ∈ fragmentTypes fields stubs ↔
      (HasMarked r.model t ∨ HasStub s trees r.model t) ∧ t.isTopLevel = true := by
  rw [fragmentTypes, List.mem_filter, List.mem_append, h.mem_owners, h.mem_stubs]

/-- The scan leads to the same marked fields in another order. -/
theorem Stages.fields_perm (h : Stages s trees r candidates fields stubs)
    (h' : Stages s others r' candidates' fields' stubs') (hp : trees.Perm others)
    (hm : SameModel r.model r'.model) : fields.Perm fields' := by
  have hmarked : r.isMarked = r'.isMarked := by
    funext f
    rw [Resolver.isMarked_eq h.found, Resolver.isMarked_eq h'.found]
  have hcandidates : candidates.fields.Perm candidates'.fields := by
    obtain ⟨_, rfl⟩ := scan_ok_iff.mp h.scanned
    obtain ⟨_, rfl⟩ := scan_ok_iff.mp h'.scanned
    exact hp.flatMap_right _
  rw [h.fields_eq, h'.fields_eq, Resolver.markedAmong, Resolver.markedAmong, hmarked]
  refine List.Perm.map _ (List.Perm.filter _ ?_)
  exact hcandidates.flatMap fun c _ => hm.fields.filter _

/-- A key with the suffix of print methods belongs to the print methods of a type. -/
theorem Stages.methods_of_key (h : Stages s trees r candidates fields stubs)
    (hp : PlainNames trees) (hs : s.stubName.string? ≠ some methodsSuffix) {f : Fragment}
    (hf : f ∈ allFragments s r.model fields stubs) {stem : String}
    (hk : f.key = fragmentKey stem methodsSuffix) :
    ∃ t ∈ fragmentTypes fields stubs, stemOf fields stubs t = stem ∧
      f = methodsFragment s r.model stem t ((groupOf fields t).map ResolvedField.name) := by
  rcases List.mem_cons.mp hf with rfl | htypes
  · have hmarker : '.' ∉ "PrintableAttribute".toList := by decide
    obtain ⟨_, hsuffix⟩ := fragmentKey_inj hmarker methodsSuffix_noDot
      (Marker.metadataName_eq.symm.trans hk)
    exact absurd hsuffix (by decide)
  · rcases List.mem_append.mp htypes with hmethods | hstubs
    · obtain ⟨t, ht, rfl⟩ := List.mem_map.mp hmethods
      obtain ⟨hown, htop⟩ := List.mem_filter.mp ht
      obtain ⟨hstem, _⟩ := fragmentKey_inj methodsSuffix_noDot methodsSuffix_noDot hk
      exact ⟨t, List.mem_filter.mpr ⟨List.mem_append_left _ hown, htop⟩, hstem, by rw [hstem]⟩
    · obtain ⟨g, hg, rfl⟩ := List.mem_map.mp hstubs
      obtain ⟨hname, hplain⟩ := h.methodName hp (List.mem_filter.mp hg).1
      obtain ⟨_, hsuffix⟩ := fragmentKey_inj hplain.noDot methodsSuffix_noDot hk
      exact absurd (hname.trans (congrArg some hsuffix)) hs

theorem Reordered.stemOf (hr : Reordered trees others r.model r'.model)
    (h : Stages s trees r candidates fields stubs)
    (h' : Stages s others r' candidates' fields' stubs') :
    PrintGen.stemOf fields stubs = PrintGen.stemOf fields' stubs' := by
  refine stemAmong_congr _ _ fun t => ?_
  rw [h.mem_fragmentTypes_iff, h'.mem_fragmentTypes_iff, hr.hasMarked,
    hr.hasStub]

theorem Reordered.plainNames (hr : Reordered trees others r.model r'.model)
    (h : Stages s trees r candidates fields stubs)
    (h' : Stages s others r' candidates' fields' stubs') (hp : PlainNames trees) :
    PlainNames others := by
  constructor
  · intro t ht
    rw [← Resolver.found_model h'.found, ← hr.alike.hasType, Resolver.found_model h.found] at ht
    exact hp.types t ht
  · exact fun tree ht => hp.methods tree (hr.perm.mem_iff.mpr ht)

theorem Reordered.keys_perm (hr : Reordered trees others r.model r'.model)
    (h : Stages s trees r candidates fields stubs)
    (h' : Stages s others r' candidates' fields' stubs')
    (hn : ((allFragments s r.model fields stubs).map Fragment.key).Nodup)
    (hn' : ((allFragments s r'.model fields' stubs').map Fragment.key).Nodup) :
    ((allFragments s r.model fields stubs).map Fragment.key).Perm
      ((allFragments s r'.model fields' stubs').map Fragment.key) := by
  rw [List.perm_ext_iff_of_nodup hn hn']
  intro key
  rw [allFragments_keys, allFragments_keys, List.mem_cons, List.mem_cons, List.mem_append,
    List.mem_append, h.mem_methodKeys, h'.mem_methodKeys, h.mem_stubKeys, h'.mem_stubKeys]
  simp only [hr.hasMarked, hr.hasStub, hr.stemOf h h']

theorem Reordered.methods_perm (hr : Reordered trees others r.model r'.model)
    (h : Stages s trees r candidates fields stubs)
    (h' : Stages s others r' candidates' fields' stubs') (hp : PlainNames trees)
    (hs : s.stubName.string? ≠ some methodsSuffix) {f f' : Fragment}
    (hf : f ∈ allFragments s r.model fields stubs)
    (hf' : f' ∈ allFragments s r'.model fields' stubs') {stem : String}
    (hk : f.key = fragmentKey stem methodsSuffix) (hk' : f'.key = f.key) :
    ∃ t names names', f = methodsFragment s r.model stem t names ∧
      f' = methodsFragment s r'.model stem t names' ∧ names.Perm names' := by
  have hp' := hr.plainNames h h' hp
  have hstems := hr.stemOf h h'
  obtain ⟨t, ht, hstem, hmethods⟩ := h.methods_of_key hp hs hf hk
  obtain ⟨u, hu, hstem', hmethods'⟩ := h'.methods_of_key hp' hs hf' (hk'.trans hk)
  have hu' : u ∈ fragmentTypes fields stubs := by
    rw [h'.mem_fragmentTypes_iff, ← hr.hasMarked, ← hr.hasStub] at hu
    exact (h.mem_fragmentTypes_iff u).mpr hu
  rw [← hstems] at hstem'
  have hsame := h.stemOf_inj hp hu' ht (hstem'.trans hstem.symm)
  rw [hsame] at hmethods'
  refine ⟨t, _, _, hmethods, hmethods', List.Perm.map _ ?_⟩
  exact ((h.fields_perm h' hr.perm hr.model).filter _).filter _

end

/-- **The order of files does not matter.** Compilations of the same trees in another order agree
on the types, their kinds, bases and attribute classes, and on the fields with the classes of their
attributes. What is generated has the same keys, and for each type with print methods the same
methods. The trees are assumed to be well-formed, as a grammar delivers them. On other trees the
declarations may stop at a fault, and how far they got then depends on the order. -/
theorem same_result_in_any_order (trees others : List SourceTree) (hp : trees.Perm others)
    (hids : (trees.map SourceTree.id).Nodup) (hw : ∀ tree ∈ trees, tree.WellFormed)
    (hc : Consistent (build trees).model.table) :
    ((build trees).fault = none ∧ (build others).fault = none ∧
      SameModel (build trees).model (build others).model) ∧
    ((∀ tree ∈ trees, tree.id ≠ .marker) → PlainNames trees → ∀ before before',
      ∃ r r' g g' after after', Traced.Gives (Resolver.ofTrees trees) (.ok r) ∧
        Traced.Gives (Resolver.ofTrees others) (.ok r') ∧
        generate .default trees before = .ok g after ∧
        generate .default others before' = .ok g' after' ∧ g.keys.Perm g'.keys ∧
        ∀ f ∈ g.fragments, ∀ f' ∈ g'.fragments, ∀ stem,
          f.key = fragmentKey stem methodsSuffix → f'.key = f.key →
          ∃ t names names', f = methodsFragment .default r.model stem t names ∧
            f' = methodsFragment .default r'.model stem t names' ∧ names.Perm names') := by
  have hw' : ∀ tree ∈ others, tree.WellFormed := fun tree ht => hw tree (hp.mem_iff.mpr ht)
  constructor
  · obtain ⟨hfault, hdeclares, hbound⟩ := build_wellFormed hw
    obtain ⟨hfault', hdeclares', hbound'⟩ := build_wellFormed hw'
    obtain ⟨_, hothers, halike⟩ := hdeclares.alike hp hids hc
    obtain rfl := hothers.unique hdeclares'
    refine ⟨hfault, hfault', ?_⟩
    rw [hbound, hbound']
    exact halike.bound
  · intro hmarker hplain before before'
    obtain ⟨r, candidates, fields, stubs, h⟩ := stages_wellFormed .default hw
    obtain ⟨r', candidates', fields', stubs', h'⟩ := stages_wellFormed .default hw'
    have hr := Resolver.found_reordered hp hids hmarker hw hc h.found h'.found
    have hn := (h.keys_nodup_iff hplain).mpr (not_keyClash_default _ _ _)
    have hn' := (h'.keys_nodup_iff (hr.plainNames h h' hplain)).mpr (not_keyClash_default _ _ _)
    obtain ⟨g, after, hrun, hg⟩ := h.runs hn before
    obtain ⟨g', after', hrun', hg'⟩ := h'.runs hn' before'
    refine ⟨r, r', g, g', after, after', h.resolver, h'.resolver, hrun, hrun', ?_, ?_⟩
    · rw [Generated.keys, Generated.keys, hg, hg']
      exact hr.keys_perm h h' hn hn'
    · rw [hg, hg']
      intro f hf f' hf' stem hk hk'
      exact hr.methods_perm h h' hplain (by decide) hf hf' hk hk'

namespace Sample

open Marker (node identifier token)

/-- A class in a third file that derives from the partial class and has its attribute under an
alias for all files. -/
def third : SourceTree :=
  ⟨.source 2, "third.cs", "global using Mark = ".toList ++
    "PrintableFields.PrintableAttribute; ".toList ++
    "namespace M \x7b class C : N.A \x7b ".toList ++
    "[Mark] int w; \x7d \x7d".toList, false,
    node (.other "compilation_unit") 0 103 none [
      node .usingDirective 0 55 none [
        token .globalToken 0 6,
        identifier 13 17 (some .name),
        token .equalsToken 18 19,
        node (.name .qualified) 20 54 none [
          identifier 20 35 (some .qualifier),
          identifier 36 54 (some .name)]],
      node .namespaceDeclaration 56 103 none [
        identifier 66 67 (some .name),
        node .declarationList 68 103 (some (.other "body")) [
          node (.typeDeclaration .classType) 70 101 none [
            identifier 76 77 (some .name),
            node .baseList 78 83 none [
              node (.name .qualified) 80 83 none [
                identifier 80 81 (some .qualifier),
                identifier 82 83 (some .name)]],
            node .declarationList 84 101 (some (.other "body")) [
              node .fieldDeclaration 86 99 none [
                node .attributeList 86 92 none [
                  node .attributeUse 87 91 none [identifier 87 91 (some .name)]],
                node .variableDeclaration 93 98 none [
                  node (.other "predefined_type") 93 96 (some .type) [],
                  node .variableDeclarator 97 98 none [identifier 97 98 (some .name)]]]]]]]]⟩

def three : List SourceTree :=
  [first, second, third]

theorem three_consistent : Consistent (build three).model.table := by
  rw [build_table]
  decide +kernel

theorem three_wellFormed : ∀ tree ∈ three, tree.WellFormed := by
  have hthird : third.WellFormed := by decide +kernel
  have hall := List.forall_mem_append.mpr ⟨wellFormed, List.forall_mem_singleton.mpr hthird⟩
  exact hall

theorem three_plainNames : PlainNames three := by
  apply PlainNames.of_paths
  · rw [Marker.tree_parts]
    decide +kernel
  · decide +kernel

end Sample

theorem same_result_of_sample :
    SameModel (build Sample.three).model (build Sample.three.reverse).model ∧
    ∃ g g' after after', generate .default Sample.three [] = .ok g after ∧
      generate .default Sample.three.reverse [] = .ok g' after' ∧
      g.keys = ["PrintableFields.PrintableAttribute", "A.Printables", "C.Printables",
        "A.PrintAllFields"] ∧ g.keys.Perm g'.keys := by
  have hspec := same_result_in_any_order Sample.three Sample.three.reverse
    (List.reverse_perm _).symm (by decide +kernel) Sample.three_wellFormed Sample.three_consistent
  have hkeys : (generated .default Sample.three).toOption.map Generated.keys =
      some ["PrintableFields.PrintableAttribute", "A.Printables", "C.Printables",
        "A.PrintAllFields"] := by
    rw [generated, Resolver.found, Resolver.compiled, Marker.tree_parts]
    decide +kernel
  obtain ⟨_, _, g, g', after, after', _, _, hrun, hrun', hperm, _⟩ :=
    hspec.2 (by decide +kernel) Sample.three_plainNames [] []
  rw [generated_of_generate hrun] at hkeys
  exact ⟨hspec.1.2.2, g, g', after, after', hrun, hrun', Option.some.inj hkeys, hperm⟩

end PrintGen
