import PrintGen.Proofs.MarkedFields
import PrintGen.Proofs.Names

/-!
# Keys that clash

The stem of a type is its simple name or its metadata name, depending on the other types that get
fragments. For plain names stems are still distinct, and a key can be taken apart at its last dot.
Two keys can therefore only agree if a stub is called like the print methods or like the marker
class. A pass stops exactly in these cases, and otherwise returns.
-/

namespace PrintGen

open Syntax Symbols

/-! ## Stems -/

/-- Where a name counts once, it leads to one type. -/
theorem eq_of_count {ts : List TypePath} {t u : TypePath}
    (hc : ts.eraseDups.countP (fun v => v.name = t.name) = 1) (ht : t ∈ ts) (hu : u ∈ ts)
    (hn : u.name = t.name) : u = t := by
  rw [List.countP_eq_length_filter] at hc
  obtain ⟨v, hv⟩ := List.length_eq_one_iff.mp hc
  have hmem : ∀ w ∈ ts, w.name = t.name → w = v := by
    intro w hw hname
    have hw' : w ∈ ts.eraseDups.filter fun v => v.name = t.name :=
      List.mem_filter.mpr ⟨List.mem_eraseDups.mpr hw, by simpa using hname⟩
    rw [hv] at hw'
    exact List.mem_singleton.mp hw'
  rw [hmem u hu hn, hmem t ht rfl]

/-- **Types have the same stem exactly if they have the same metadata name.** -/
theorem stemAmong_eq_iff {ts : List TypePath}
    (hts : ∀ t ∈ ts, t.isTopLevel = true ∧ Unseparated t.name) {t u : TypePath} (ht : t ∈ ts)
    (hu : u ∈ ts) :
    stemAmong TypePath.name TypePath.metadataName ts t =
        stemAmong TypePath.name TypePath.metadataName ts u ↔
      t.metadataName = u.metadataName := by
  obtain ⟨httop, htname⟩ := hts t ht
  obtain ⟨hutop, huname⟩ := hts u hu
  constructor
  · intro h
    rw [stemAmong, stemAmong] at h
    split at h
    · rename_i hct
      split at h
      · rw [eq_of_count hct ht hu h.symm]
      · rw [eq_of_count hct ht hu (TypePath.name_of_metadataName htname hutop h.symm)]
    · split at h
      · rename_i hcu
        rw [eq_of_count hcu hu ht (TypePath.name_of_metadataName huname httop h)]
      · exact h
  · -- Two types of one metadata name share their simple name, so neither goes by that alone.
    intro h
    by_cases he : t = u
    · rw [he]
    · have hname : t.name = u.name := congrArg Segment.name
        ((TypePath.metadataName_eq_iff htname huname httop hutop).mp h).2
      rw [stemAmong, if_neg fun hc => he (eq_of_count hc ht hu hname.symm).symm, stemAmong,
        if_neg fun hc => he (eq_of_count hc hu ht hname), h]

/-- **Different types with plain names have different stems.** -/
theorem stemAmong_inj {ts : List TypePath}
    (hp : ∀ t ∈ ts, t.isTopLevel = true ∧ t.Plain) {t u : TypePath} (ht : t ∈ ts) (hu : u ∈ ts)
    (h : stemAmong TypePath.name TypePath.metadataName ts t =
      stemAmong TypePath.name TypePath.metadataName ts u) : t = u := by
  obtain ⟨httop, htplain⟩ := hp t ht
  obtain ⟨hutop, huplain⟩ := hp u hu
  have hnames : ∀ v ∈ ts, v.isTopLevel = true ∧ Unseparated v.name :=
    fun v hv => ⟨(hp v hv).1, (hp v hv).2.name.unseparated⟩
  exact TypePath.metadataName_inj htplain huplain httop hutop
    ((stemAmong_eq_iff hnames ht hu).mp h)

theorem fragmentKey_inj {stem suffix stem' suffix' : String} (h : '.' ∉ suffix.toList)
    (h' : '.' ∉ suffix'.toList) (he : fragmentKey stem suffix = fragmentKey stem' suffix') :
    stem = stem' ∧ suffix = suffix' :=
  joined_unique dot_toList h h' he

theorem fragmentKey_inj_left {stem stem' suffix : String}
    (h : fragmentKey stem suffix = fragmentKey stem' suffix) : stem = stem' := by
  have hlist := congrArg String.toList h
  simp only [fragmentKey, String.toList_append, List.append_cancel_right_eq] at hlist
  exact String.toList_inj.mp hlist

theorem Marker.metadataName_eq :
    Marker.metadataName = fragmentKey "PrintableFields" "PrintableAttribute" := by
  decide +kernel

/-! ## What stubs are called -/

theorem isStub_name {tree : SourceTree} {stubName : Option String} {node : Node} {b : Bool}
    (h : tree.isStub stubName node = .ok b) (hb : b = true) {name : String}
    (hn : tree.declaredName node = .ok name) :
    node.kind = .methodDeclaration ∧ stubName = some name := by
  rw [SourceTree.isStub] at h
  split at h
  · rename_i hk
    refine ⟨hk, ?_⟩
    obtain ⟨modifiers, _, h⟩ := except_bind_ok.mp h
    split at h
    · obtain ⟨name', hn', h⟩ := except_bind_ok.mp h
      rw [hn] at hn'
      cases hn'
      cases h
      rw [Bool.and_eq_true] at hb
      exact (of_decide_eq_true hb.1).symm
    · cases h
      cases hb
  · cases h
    cases hb

section

variable {s : Settings} {trees : List SourceTree} {r : Resolver} {candidates : Candidates}
  {fields : List (ResolvedField TypePath)} {stubs : List (StubGroup TypePath)}

/-- A type has a stub if the nearest declaration around some stub declares it. -/
def HasStub (s : Settings) (trees : List SourceTree) (m : Model) (t : TypePath) : Prop :=
  ∃ q ∈ stubPlaces trees s.stubName.string?, m.table.ownerAt? q = some t

/-- A type has a marked field. -/
def HasMarked (m : Model) (t : TypePath) : Prop :=
  ∃ f ∈ m.fieldsOf t, f.isMarked = true

/-- All declared types and all methods have plain names. -/
structure PlainNames (trees : List SourceTree) : Prop where
  types : ∀ t, (Resolver.compiled trees).model.table.hasType t = true → t.Plain
  methods : ∀ tree ∈ trees, ∀ node ∈ tree.root.preorder, node.kind = .methodDeclaration →
    ∀ name, tree.declaredName node = .ok name → Plain name

theorem PlainNames.of_paths
    (ht : ∀ t ∈ (declaredTable (trees ++ [Marker.tree])).paths, t.Plain)
    (hm : ∀ tree ∈ trees, ∀ node ∈ tree.root.preorder, node.kind = .methodDeclaration →
      ∀ name ∈ (tree.declaredName node).toOption, Plain name) : PlainNames trees := by
  constructor
  · intro t htype
    rw [Resolver.compiled, build_table, Table.hasType_iff_mem] at htype
    exact ht t htype
  · intro tree htree node hnode hk name hname
    exact hm tree htree node hnode hk name (by rw [hname]; rfl)

theorem Stages.groups (h : Stages s trees r candidates fields stubs) :
    stubs.map StubGroup.owner =
        ((stubPlaces trees s.stubName.string?).filterMap r.model.table.ownerAt?).eraseDups ∧
      ∀ g ∈ stubs, ∃ q ∈ stubPlaces trees s.stubName.string?, Signed g q.1 q.2.node := by
  obtain ⟨_, hcandidates⟩ := scan_ok_iff.mp h.scanned
  have hsigned := h.signed
  rw [hcandidates] at hsigned
  obtain ⟨howners, hall⟩ := groups_of_places hsigned
  refine ⟨howners, fun g hg => ?_⟩
  obtain ⟨_, q, hq, hs⟩ := hall g hg
  exact ⟨q, List.mem_of_find?_eq_some hq, hs⟩

theorem Stages.mem_stubs (h : Stages s trees r candidates fields stubs) (t : TypePath) :
    t ∈ stubs.map StubGroup.owner ↔ HasStub s trees r.model t := by
  rw [h.groups.1, List.mem_eraseDups, List.mem_filterMap]
  rfl

theorem Stages.mem_owners (h : Stages s trees r candidates fields stubs) (t : TypePath) :
    t ∈ groupOwners fields ↔ HasMarked r.model t := by
  rw [h.fields_eq]
  exact mem_groupOwners_markedAmong h.scanned h.found t

/-- Every stub is a method with the name that stubs are looked for by. -/
theorem Stages.stub_method (h : Stages s trees r candidates fields stubs)
    {g : StubGroup TypePath} (hg : g ∈ stubs) :
    s.stubName.string? = some g.methodName ∧ ∃ tree ∈ trees, ∃ node ∈ tree.root.preorder,
      node.kind = .methodDeclaration ∧ tree.declaredName node = .ok g.methodName := by
  obtain ⟨q, hq, hs⟩ := h.groups.2 g hg
  obtain ⟨hmem, hstub⟩ := List.mem_filter.mp hq
  obtain ⟨b, hb⟩ := (scan_ok_iff.mp h.scanned).1 q hmem
  rw [hb] at hstub
  have htrue : b = true := by simpa [Except.toOption] using hstub
  obtain ⟨hkind, hname⟩ := isStub_name hb htrue hs.name
  obtain ⟨htree, hnode⟩ := mem_allPlaces hmem
  exact ⟨hname, q.1, htree, q.2.node, hnode, hkind, hs.name⟩

/-- With plain names, this name is plain. -/
theorem Stages.methodName (h : Stages s trees r candidates fields stubs)
    (hp : PlainNames trees) {g : StubGroup TypePath} (hg : g ∈ stubs) :
    s.stubName.string? = some g.methodName ∧ Plain g.methodName := by
  obtain ⟨hname, tree, htree, node, hnode, hkind, hdeclared⟩ := h.stub_method hg
  exact ⟨hname, hp.methods tree htree node hnode hkind _ hdeclared⟩

/-- Types that get fragments are declared. -/
theorem Stages.fragmentTypes_declared (h : Stages s trees r candidates fields stubs) :
    ∀ t ∈ fragmentTypes fields stubs,
      t.isTopLevel = true ∧ (Resolver.compiled trees).model.table.hasType t = true := by
  intro t ht
  obtain ⟨hmem, htop⟩ := List.mem_filter.mp ht
  refine ⟨htop, ?_⟩
  have hmodel := Resolver.found_model h.found
  rw [← hmodel]
  rcases List.mem_append.mp hmem with hown | hstub
  · obtain ⟨f, hf, _⟩ := (h.mem_owners t).mp hown
    exact hasType_of_field h.found hf
  · obtain ⟨q, _, hq⟩ := (h.mem_stubs t).mp hstub
    obtain ⟨node, _, hnode⟩ := Option.bind_eq_some_iff.mp hq
    obtain ⟨hfault, _⟩ := Resolver.found_eq h.found
    have hdeclared := (build_ok hfault).1.nodesDeclared nodesDeclared_empty
    rw [hmodel] at hnode ⊢
    exact hdeclared _ _ hnode

/-! ## Distinct keys -/

/-- Two keys agree: a top-level type has print methods and a stub of the same name, or the stub of
a type whose stem is the marker's namespace is called like the marker class. -/
def KeyClash (s : Settings) (trees : List SourceTree) (m : Model) (stem : TypePath → String) :
    Prop :=
  s.stubName.string? = some "Printables" ∧
      (∃ t, t.isTopLevel = true ∧ HasMarked m t ∧ HasStub s trees m t) ∨
    s.stubName.string? = some "PrintableAttribute" ∧
      ∃ t, t.isTopLevel = true ∧ HasStub s trees m t ∧ stem t = "PrintableFields"

theorem not_keyClash_default (trees : List SourceTree) (m : Model) (stem : TypePath → String) :
    ¬ KeyClash .default trees m stem := by
  rintro (⟨hname, _⟩ | ⟨hname, _⟩)
  · exact absurd hname (by decide)
  · exact absurd hname (by decide)

/-- The keys of the print methods. -/
def methodKeys (fields : List (ResolvedField TypePath)) (stubs : List (StubGroup TypePath)) :
    List String :=
  ((groupOwners fields).filter TypePath.isTopLevel).map fun t =>
    fragmentKey (stemOf fields stubs t) methodsSuffix

/-- The keys of the implemented stubs. -/
def stubKeys (fields : List (ResolvedField TypePath)) (stubs : List (StubGroup TypePath)) :
    List String :=
  (stubs.filter fun g => g.owner.isTopLevel).map fun g =>
    fragmentKey (stemOf fields stubs g.owner) g.methodName

theorem allFragments_keys (s : Settings) (m : Model) (fields : List (ResolvedField TypePath))
    (stubs : List (StubGroup TypePath)) :
    (allFragments s m fields stubs).map Fragment.key =
      Marker.metadataName :: (methodKeys fields stubs ++ stubKeys fields stubs) := by
  rw [allFragments, typeFragments, List.map_cons, List.map_append, List.map_map, List.map_map]
  rfl

theorem methodsSuffix_noDot : '.' ∉ methodsSuffix.toList := by
  decide

theorem Stages.mem_methodKeys (h : Stages s trees r candidates fields stubs) {key : String} :
    key ∈ methodKeys fields stubs ↔ ∃ t, t.isTopLevel = true ∧ HasMarked r.model t ∧
      key = fragmentKey (stemOf fields stubs t) methodsSuffix := by
  rw [methodKeys, List.mem_map]
  constructor
  · rintro ⟨t, ht, rfl⟩
    obtain ⟨hown, htop⟩ := List.mem_filter.mp ht
    exact ⟨t, htop, (h.mem_owners t).mp hown, rfl⟩
  · rintro ⟨t, htop, hmarked, rfl⟩
    exact ⟨t, List.mem_filter.mpr ⟨(h.mem_owners t).mpr hmarked, htop⟩, rfl⟩

theorem Stages.mem_stubKeys (h : Stages s trees r candidates fields stubs) {key : String} :
    key ∈ stubKeys fields stubs ↔ ∃ t name, t.isTopLevel = true ∧ HasStub s trees r.model t ∧
      s.stubName.string? = some name ∧ key = fragmentKey (stemOf fields stubs t) name := by
  rw [stubKeys, List.mem_map]
  constructor
  · rintro ⟨g, hg, rfl⟩
    obtain ⟨hmem, htop⟩ := List.mem_filter.mp hg
    exact ⟨g.owner, g.methodName, htop, (h.mem_stubs _).mp (List.mem_map_of_mem hmem),
      (h.stub_method hmem).1, rfl⟩
  · rintro ⟨t, name, htop, hstub, hname, rfl⟩
    obtain ⟨g, hmem, rfl⟩ := List.mem_map.mp ((h.mem_stubs t).mpr hstub)
    have hname' := (h.stub_method hmem).1
    rw [hname] at hname'
    exact ⟨g, List.mem_filter.mpr ⟨hmem, htop⟩, by rw [Option.some.inj hname']⟩

theorem Stages.mem_fragmentTypes (h : Stages s trees r candidates fields stubs) {t : TypePath}
    (htop : t.isTopLevel = true) (hm : HasMarked r.model t ∨ HasStub s trees r.model t) :
    t ∈ fragmentTypes fields stubs := by
  refine List.mem_filter.mpr ⟨List.mem_append.mpr ?_, htop⟩
  rw [h.mem_owners, h.mem_stubs]
  exact hm

theorem Stages.stemOf_inj (h : Stages s trees r candidates fields stubs) (hp : PlainNames trees)
    {t u : TypePath} (ht : t ∈ fragmentTypes fields stubs) (hu : u ∈ fragmentTypes fields stubs)
    (he : stemOf fields stubs t = stemOf fields stubs u) : t = u := by
  refine stemAmong_inj (fun v hv => ?_) ht hu he
  obtain ⟨htop, hdeclared⟩ := h.fragmentTypes_declared v hv
  exact ⟨htop, hp.types v hdeclared⟩

/-- Different types with a property have different stems. -/
def StemsApart (fields : List (ResolvedField TypePath)) (stubs : List (StubGroup TypePath))
    (P : TypePath → Prop) : Prop :=
  ∀ t u, t.isTopLevel = true → u.isTopLevel = true → P t → P u →
    stemOf fields stubs t = stemOf fields stubs u → t = u

/-- Print methods share a key exactly if their types share a stem. -/
theorem Stages.methodKeys_nodup_iff (h : Stages s trees r candidates fields stubs) :
    (methodKeys fields stubs).Nodup ↔ StemsApart fields stubs (HasMarked r.model) := by
  have howners : (groupOwners fields).Nodup := nodup_eraseDups _
  rw [methodKeys, List.nodup_map_iff_inj_on (howners.filter _)]
  constructor
  · intro hinj t u htop hutop ht hu he
    exact hinj t (List.mem_filter.mpr ⟨(h.mem_owners t).mpr ht, htop⟩) u
      (List.mem_filter.mpr ⟨(h.mem_owners u).mpr hu, hutop⟩) (by rw [he])
  · intro hapart t ht u hu he
    obtain ⟨hown, htop⟩ := List.mem_filter.mp ht
    obtain ⟨hown', hutop⟩ := List.mem_filter.mp hu
    exact hapart t u htop hutop ((h.mem_owners t).mp hown) ((h.mem_owners u).mp hown')
      (fragmentKey_inj methodsSuffix_noDot methodsSuffix_noDot he).1

/-- So do stubs, which all have the same name. -/
theorem Stages.stubKeys_nodup_iff (h : Stages s trees r candidates fields stubs) :
    (stubKeys fields stubs).Nodup ↔ StemsApart fields stubs (HasStub s trees r.model) := by
  have howners : (stubs.map StubGroup.owner).Nodup := by
    rw [h.groups.1]
    exact nodup_eraseDups _
  have hsame : ∀ g ∈ stubs, ∀ g' ∈ stubs, g.methodName = g'.methodName := fun g hg g' hg' =>
    Option.some.inj ((h.stub_method hg).1.symm.trans (h.stub_method hg').1)
  rw [stubKeys, List.nodup_map_iff_inj_on ((List.Nodup.of_map _ howners).filter _)]
  constructor
  · intro hinj t u htop hutop ht hu he
    obtain ⟨g, hg, rfl⟩ := List.mem_map.mp ((h.mem_stubs t).mpr ht)
    obtain ⟨g', hg', rfl⟩ := List.mem_map.mp ((h.mem_stubs u).mpr hu)
    rw [hinj g (List.mem_filter.mpr ⟨hg, htop⟩) g' (List.mem_filter.mpr ⟨hg', hutop⟩)
      (by rw [he, hsame g hg g' hg'])]
  · intro hapart g hg g' hg' he
    obtain ⟨hmem, htop⟩ := List.mem_filter.mp hg
    obtain ⟨hmem', hutop⟩ := List.mem_filter.mp hg'
    rw [hsame g hmem g' hmem'] at he
    have hown := hapart g.owner g'.owner htop hutop
      ((h.mem_stubs _).mp (List.mem_map_of_mem hmem))
      ((h.mem_stubs _).mp (List.mem_map_of_mem hmem')) (fragmentKey_inj_left he)
    exact List.inj_on_of_nodup_map howners hmem hmem' hown

/-- If there are stubs, their name has no dot. -/
def DotlessStubs (s : Settings) (trees : List SourceTree) (m : Model) : Prop :=
  ∀ t name, HasStub s trees m t → s.stubName.string? = some name → '.' ∉ name.toList

theorem Stages.dotlessStubs (h : Stages s trees r candidates fields stubs)
    (hp : PlainNames trees) : DotlessStubs s trees r.model := by
  intro t name hstub hname
  obtain ⟨g, hg, _⟩ := List.mem_map.mp ((h.mem_stubs t).mpr hstub)
  obtain ⟨hname', hplain⟩ := h.methodName hp hg
  rw [hname] at hname'
  exact Option.some.inj hname' ▸ hplain.noDot

/-- The marker's key can only be the key of a stub. -/
theorem Stages.marker_mem_keys (h : Stages s trees r candidates fields stubs)
    (hd : DotlessStubs s trees r.model) :
    Marker.metadataName ∈ methodKeys fields stubs ++ stubKeys fields stubs ↔
      s.stubName.string? = some "PrintableAttribute" ∧ ∃ t, t.isTopLevel = true ∧
        HasStub s trees r.model t ∧ stemOf fields stubs t = "PrintableFields" := by
  have hmarker : '.' ∉ "PrintableAttribute".toList := by decide
  rw [Marker.metadataName_eq, List.mem_append, h.mem_methodKeys, h.mem_stubKeys]
  constructor
  · rintro (⟨t, _, _, he⟩ | ⟨t, name, htop, hstub, hname, he⟩)
    · obtain ⟨_, hsuffix⟩ := fragmentKey_inj hmarker methodsSuffix_noDot he
      exact absurd hsuffix (by decide)
    · obtain ⟨hstem, rfl⟩ := fragmentKey_inj hmarker (hd t name hstub hname) he
      exact ⟨hname, t, htop, hstub, hstem.symm⟩
  · rintro ⟨hname, t, htop, hstub, hstem⟩
    exact .inr ⟨t, _, htop, hstub, hname, by rw [hstem]⟩

/-- Print methods and a stub can only share a key if the stub is called like them. -/
theorem Stages.shared_key (h : Stages s trees r candidates fields stubs)
    (hd : DotlessStubs s trees r.model) {key : String} (hm : key ∈ methodKeys fields stubs)
    (hs : key ∈ stubKeys fields stubs) :
    s.stubName.string? = some "Printables" ∧ ∃ t u, t.isTopLevel = true ∧ u.isTopLevel = true ∧
      HasMarked r.model t ∧ HasStub s trees r.model u ∧
      stemOf fields stubs t = stemOf fields stubs u := by
  obtain ⟨t, htop, hmarked, rfl⟩ := h.mem_methodKeys.mp hm
  obtain ⟨u, name, hutop, hstub, hname, he⟩ := h.mem_stubKeys.mp hs
  obtain ⟨hstem, rfl⟩ := fragmentKey_inj methodsSuffix_noDot (hd u name hstub hname) he
  exact ⟨hname, t, u, htop, hutop, hmarked, hstub, hstem⟩

/-- With plain names, they belong to the same type then. -/
theorem Stages.keys_disjoint (h : Stages s trees r candidates fields stubs)
    (hp : PlainNames trees) :
    List.Disjoint (methodKeys fields stubs) (stubKeys fields stubs) ↔
      ¬ (s.stubName.string? = some "Printables" ∧
        ∃ t, t.isTopLevel = true ∧ HasMarked r.model t ∧ HasStub s trees r.model t) := by
  constructor
  · rintro hd ⟨hname, t, htop, hmarked, hstub⟩
    exact hd (h.mem_methodKeys.mpr ⟨t, htop, hmarked, rfl⟩)
      (h.mem_stubKeys.mpr ⟨t, _, htop, hstub, hname, rfl⟩)
  · intro hno key hm hs
    obtain ⟨hname, t, u, htop, hutop, hmarked, hstub, hstem⟩ :=
      h.shared_key (h.dotlessStubs hp) hm hs
    have hsame := h.stemOf_inj hp (h.mem_fragmentTypes htop (.inl hmarked))
      (h.mem_fragmentTypes hutop (.inr hstub)) hstem
    rw [← hsame] at hstub
    exact hno ⟨hname, t, htop, hmarked, hstub⟩

/-- **The keys of a pass are distinct unless they clash.** -/
theorem Stages.keys_nodup_iff (h : Stages s trees r candidates fields stubs)
    (hp : PlainNames trees) :
    ((allFragments s r.model fields stubs).map Fragment.key).Nodup ↔
      ¬ KeyClash s trees r.model (stemOf fields stubs) := by
  have hmethods : (methodKeys fields stubs).Nodup := h.methodKeys_nodup_iff.mpr
    fun t u htop hutop ht hu => h.stemOf_inj hp (h.mem_fragmentTypes htop (.inl ht))
      (h.mem_fragmentTypes hutop (.inl hu))
  have hstubs : (stubKeys fields stubs).Nodup := h.stubKeys_nodup_iff.mpr
    fun t u htop hutop ht hu => h.stemOf_inj hp (h.mem_fragmentTypes htop (.inr ht))
      (h.mem_fragmentTypes hutop (.inr hu))
  rw [allFragments_keys, List.nodup_cons, h.marker_mem_keys (h.dotlessStubs hp),
    List.nodup_append', h.keys_disjoint hp, KeyClash, not_or]
  constructor
  · rintro ⟨hmarker, _, _, hshared⟩
    exact ⟨hshared, hmarker⟩
  · rintro ⟨hshared, hmarker⟩
    exact ⟨hmarker, hmethods, hstubs, hshared⟩

end

/-- Whether a fault is about registering a fragment. -/
def Fault.isFragment : Fault → Bool
  | .emptyFragment _ => true
  | .duplicateKey _ => true
  | _ => false

/-- **When keys clash.** A pass over a compilation with plain names stops at a fragment exactly if
two keys clash. Otherwise it returns, with distinct keys and without empty texts. Well-formed trees
always get as far as that. -/
theorem fragment_fault_iff_keyClash (s : Settings) (trees : List SourceTree)
    (hp : PlainNames trees) :
    (∀ r candidates fields stubs, Stages s trees r candidates fields stubs → ∀ before,
      ((∃ fault after, generate s trees before = .error fault after ∧ fault.isFragment = true) ↔
        KeyClash s trees r.model (stemOf fields stubs)) ∧
      (¬ KeyClash s trees r.model (stemOf fields stubs) →
        ∃ g after, generate s trees before = .ok g after ∧ Marker.metadataName ∈ g.keys ∧
          g.keys.Nodup ∧ ∀ f ∈ g.fragments, f.text.isEmpty = false)) ∧
    ((∀ tree ∈ trees, tree.WellFormed) →
      ∃ r candidates fields stubs, Stages s trees r candidates fields stubs) := by
  refine ⟨fun r candidates fields stubs h before => ?_, stages_wellFormed s⟩
  have hnodup := h.keys_nodup_iff hp
  by_cases hclash : KeyClash s trees r.model (stemOf fields stubs)
  · have hgives := generate_gives s trees
    obtain ⟨key, hstop⟩ := h.stops fun hn => hnodup.mp hn hclash
    rw [hstop] at hgives
    obtain ⟨after, hrun⟩ := hgives before trivial
    exact ⟨iff_of_true ⟨_, after, hrun, rfl⟩ hclash, fun hno => absurd hclash hno⟩
  · have hkeys := hnodup.mpr hclash
    obtain ⟨g, after, hrun, hg⟩ := h.runs hkeys before
    have hmarker : Marker.metadataName ∈
        (allFragments s r.model fields stubs).map Fragment.key := by
      rw [allFragments_keys]
      exact List.mem_cons_self
    constructor
    · refine iff_of_false ?_ hclash
      rintro ⟨fault, later, hfault, _⟩
      rw [hrun] at hfault
      cases hfault
    · intro _
      refine ⟨g, after, hrun, ?_⟩
      rw [Generated.keys, hg]
      exact ⟨hmarker, hkeys, allFragments_nonempty⟩

namespace Sample

open Marker (node identifier)

/-- A class with a marked field and a stub that is called like its print methods. -/
def clashing : SourceTree :=
  ⟨.source 0, "clashing.cs", "namespace N \x7b partial class A \x7b ".toList ++
    "[PrintableFields.Printable] int ".toList ++
    "x; partial void Printables(); \x7d ".toList ++
    "\x7d".toList, false,
    node (.other "compilation_unit") 0 97 none [
      node .namespaceDeclaration 0 97 none [
        identifier 10 11 (some .name),
        node .declarationList 12 97 (some (.other "body")) [
          node (.typeDeclaration .classType) 14 95 none [
            node .modifier 14 21 none [],
            identifier 28 29 (some .name),
            node .declarationList 30 95 (some (.other "body")) [
              node .fieldDeclaration 32 66 none [
                node .attributeList 32 59 none [
                  node .attributeUse 33 58 none [
                    node (.name .qualified) 33 58 (some .name) [
                      identifier 33 48 (some .qualifier),
                      identifier 49 58 (some .name)]]],
                node .variableDeclaration 60 65 none [
                  node (.other "predefined_type") 60 63 (some .type) [],
                  node .variableDeclarator 64 65 none [identifier 64 65 (some .name)]]],
              node .methodDeclaration 67 93 none [
                node .modifier 67 74 none [],
                node (.other "predefined_type") 75 79 (some .returns) [],
                identifier 80 90 (some .name),
                node .parameterList 90 92 (some .parameters) []]]]]]]⟩

/-- Settings under which that stub is implemented. -/
def clashingSettings : Settings :=
  { Settings.default with stubName := .ofString "Printables" }

theorem clashing_plainNames : PlainNames [clashing] := by
  apply PlainNames.of_paths
  · rw [Marker.tree_parts]
    decide +kernel
  · decide +kernel

end Sample

theorem fragment_fault_of_sample :
    (∃ fault after, generate Sample.clashingSettings [Sample.clashing] [] = .error fault after ∧
      fault.isFragment = true) ∧
    ∃ g after, generate .default [Sample.clashing] [] = .ok g after ∧ g.keys.Nodup ∧
      ∀ f ∈ g.fragments, f.text.isEmpty = false := by
  have hw : ∀ tree ∈ [Sample.clashing], tree.WellFormed := by decide +kernel
  constructor
  · have hspec := fragment_fault_iff_keyClash Sample.clashingSettings [Sample.clashing]
      Sample.clashing_plainNames
    obtain ⟨r, candidates, fields, stubs, h⟩ := hspec.2 hw
    have hboth : (∃ f ∈ (Resolver.compiled [Sample.clashing]).model.fieldsOf Sample.owner,
          f.isMarked = true) ∧
        ∃ q ∈ stubPlaces [Sample.clashing] (some "Printables"),
          (Resolver.compiled [Sample.clashing]).model.table.ownerAt? q = some Sample.owner := by
      rw [Resolver.compiled, Marker.tree_parts]
      decide +kernel
    rw [← Resolver.found_model h.found] at hboth
    exact (hspec.1 r candidates fields stubs h []).1.mpr
      (.inl ⟨by decide, Sample.owner, rfl, hboth.1, hboth.2⟩)
  · have hspec := fragment_fault_iff_keyClash .default [Sample.clashing]
      Sample.clashing_plainNames
    obtain ⟨r, candidates, fields, stubs, h⟩ := hspec.2 hw
    obtain ⟨g, after, hrun, _, hkeys, htexts⟩ :=
      (hspec.1 r candidates fields stubs h []).2 (not_keyClash_default _ _ _)
    exact ⟨g, after, hrun, hkeys, htexts⟩

end PrintGen
