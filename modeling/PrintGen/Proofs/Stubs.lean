import PrintGen.Proofs.Generation
import PrintGen.Proofs.Scopes
import PrintGen.Proofs.TypeMembers

/-!
# Stubs

A stub counts for the type that the nearest type declaration around it declares, and the first stub
of a type gives the signature. The scan visits all places of all trees, so the groups of stubs are
described by the places alone: which types have one, in which order, with which signature, and
which names they print.
-/

namespace PrintGen

open Syntax Symbols

/-- The places of the stubs, in tree order and then in source order. -/
def stubPlaces (trees : List SourceTree) (stubName : Option String) : List (SourceTree × Place) :=
  (allPlaces trees).filter fun q => (q.1.isStub stubName q.2.node).toOption = some true

/-- The type that the nearest type declaration around a place declares. -/
def Symbols.Table.ownerAt? (table : Table) (q : SourceTree × Place) : Option TypePath :=
  q.2.owner?.bind fun node => table.typeOfNode? (q.1.key node)

/-- A place as a candidate. -/
def candidateAt (q : SourceTree × Place) : Candidate :=
  ⟨q.1, q.2.owner?, q.2.node⟩

/-! ## The scan -/

theorem stubs_ok_iff {tree : SourceTree} {stubName : Option String} {found : List Candidate} :
    tree.stubs stubName = .ok found ↔
      (∀ p ∈ tree.root.places, ∃ b, tree.isStub stubName p.node = .ok b) ∧
      found = ((tree.root.places.filter fun p =>
        (tree.isStub stubName p.node).toOption = some true).map fun p => candidateAt (tree, p)) := by
  have hplaces : tree.occurrences = tree.root.places.map Place.occurrence :=
    Node.occurrences_eq_places tree.root
  rw [SourceTree.stubs, except_bind_ok, hplaces]
  simp only [filterM_ok_iff, List.forall_mem_map, List.filter_map]
  constructor
  · rintro ⟨_, ⟨hall, rfl⟩, he⟩
    cases he
    exact ⟨hall, by rw [List.map_map]; rfl⟩
  · rintro ⟨hall, rfl⟩
    exact ⟨_, ⟨hall, rfl⟩, by rw [List.map_map]; rfl⟩

/-- **The scan finds the stubs at all places**, provided that every method can be read. -/
theorem scan_ok_iff {trees : List SourceTree} {stubName : Option String}
    {candidates : Candidates} :
    scan trees stubName = .ok candidates ↔
      (∀ q ∈ allPlaces trees, ∃ b, q.1.isStub stubName q.2.node = .ok b) ∧
      candidates = ⟨trees.flatMap SourceTree.annotatedFields,
        (stubPlaces trees stubName).map candidateAt⟩ := by
  have hstubs : ∀ found : List (List Candidate),
      trees.mapM (fun tree => tree.stubs stubName) = .ok found ↔
        (∀ q ∈ allPlaces trees, ∃ b, q.1.isStub stubName q.2.node = .ok b) ∧
        found = trees.map fun tree => (tree.root.places.filter fun p =>
          (tree.isStub stubName p.node).toOption = some true).map
            fun p => candidateAt (tree, p) := by
    intro found
    simp only [mapM_ok_iff, stubs_ok_iff, allPlaces, List.forall_mem_flatMap, List.forall_mem_map]
    constructor
    · intro h
      induction h with
      | nil => simp
      | cons hd _ ih =>
        rw [List.forall_mem_cons, List.map_cons, ← hd.2, ← ih.2]
        exact ⟨⟨hd.1, ih.1⟩, rfl⟩
    · rintro ⟨hall, rfl⟩
      rw [List.forall₂_map_right_iff, List.forall₂_same]
      exact fun tree ht => ⟨hall tree ht, rfl⟩
  have hflat : (trees.map fun tree => (tree.root.places.filter fun p =>
      (tree.isStub stubName p.node).toOption = some true).map fun p =>
        candidateAt (tree, p)).flatten = (stubPlaces trees stubName).map candidateAt := by
    rw [stubPlaces, allPlaces, List.filter_flatMap, List.map_flatMap, List.flatMap_def]
    congr 1
    apply List.map_congr_left
    intro tree _
    rw [List.filter_map, List.map_map]
    rfl
  rw [scan, except_bind_ok]
  simp only [hstubs]
  constructor
  · rintro ⟨_, ⟨hall, rfl⟩, he⟩
    cases he
    exact ⟨hall, by rw [hflat]⟩
  · rintro ⟨hall, rfl⟩
    exact ⟨_, ⟨hall, rfl⟩, by rw [hflat]; rfl⟩

theorem mem_allPlaces {trees : List SourceTree} {q : SourceTree × Place}
    (h : q ∈ allPlaces trees) : q.1 ∈ trees ∧ q.2.node ∈ q.1.root.preorder := by
  obtain ⟨tree, ht, hq⟩ := List.mem_flatMap.mp h
  obtain ⟨p, hp, rfl⟩ := List.mem_map.mp hq
  refine ⟨ht, ?_⟩
  rw [← Node.placesIn_node [] tree.root]
  exact List.mem_map_of_mem hp

theorem legible_of_mem {trees : List SourceTree} (hw : ∀ tree ∈ trees, tree.WellFormed)
    {q : SourceTree × Place} (h : q ∈ allPlaces trees) : q.1.Legible q.2.node := by
  obtain ⟨ht, hn⟩ := mem_allPlaces h
  exact fun n hn' => hw q.1 ht n (Node.preorder_trans hn hn')

/-! ## The first stub of each type -/

namespace Resolver

section

variable (r : Resolver)

/-- The type that a candidate counts for. -/
def ownerOf? (c : Candidate) : Option TypePath :=
  r.model.containingType? c.tree c.owner

theorem firstStubs_owners (seen : List TypePath) (candidates : List Candidate) :
    (r.firstStubs seen candidates).map Prod.fst =
      ((candidates.filterMap r.ownerOf?).filter fun t => !seen.contains t).eraseDups := by
  induction candidates generalizing seen with
  | nil => rfl
  | cons c rest ih =>
    rw [firstStubs]
    cases hc : r.model.containingType? c.tree c.owner with
    | none =>
      have hnone : r.ownerOf? c = none := hc
      rw [List.filterMap_cons_none hnone]
      exact ih seen
    | some t =>
      have hsome : r.ownerOf? c = some t := hc
      rw [List.filterMap_cons_some hsome]
      dsimp only
      by_cases hs : seen.contains t = true
      · rw [if_pos hs, List.filter_cons_of_neg (by rw [hs]; simp)]
        exact ih seen
      · have hboth : (fun u : TypePath => !(t :: seen).contains u) =
            fun u => !(u == t) && !seen.contains u := by
          funext u
          rw [List.contains_cons, Bool.not_or]
        rw [if_neg hs, List.filter_cons_of_pos (by simpa using hs), List.map_cons, ih,
          List.eraseDups_cons, List.filter_filter, hboth]

theorem firstStubs_first {seen : List TypePath} {candidates : List Candidate} {t : TypePath}
    {c : Candidate} (h : (t, c) ∈ r.firstStubs seen candidates) :
    t ∉ seen ∧ candidates.find? (fun c => r.ownerOf? c = some t) = some c := by
  induction candidates generalizing seen with
  | nil => cases h
  | cons first rest ih =>
    rw [firstStubs] at h
    cases hc : r.model.containingType? first.tree first.owner with
    | none =>
      rw [hc] at h
      obtain ⟨hnew, hfind⟩ := ih h
      refine ⟨hnew, ?_⟩
      rw [List.find?_cons_of_neg (by simp [ownerOf?, hc])]
      exact hfind
    | some u =>
      rw [hc] at h
      dsimp only at h
      by_cases hs : seen.contains u = true
      · rw [if_pos hs] at h
        obtain ⟨hnew, hfind⟩ := ih h
        have hne : u ≠ t := by
          rintro rfl
          exact hnew (by simpa using hs)
        refine ⟨hnew, ?_⟩
        rw [List.find?_cons_of_neg (by simpa [ownerOf?, hc] using hne)]
        exact hfind
      · rw [if_neg hs] at h
        rcases List.mem_cons.mp h with he | hr
        · cases he
          refine ⟨by simpa using hs, ?_⟩
          rw [List.find?_cons_of_pos (by simp [ownerOf?, hc])]
        · obtain ⟨hnew, hfind⟩ := ih hr
          have hne : u ≠ t := by
            rintro rfl
            exact hnew List.mem_cons_self
          refine ⟨fun hm => hnew (List.mem_cons_of_mem _ hm), ?_⟩
          rw [List.find?_cons_of_neg (by simpa [ownerOf?, hc] using hne)]
          exact hfind

theorem firstStubs_mem {seen : List TypePath} {candidates : List Candidate} {t : TypePath}
    {c : Candidate} (h : (t, c) ∈ r.firstStubs seen candidates) :
    c ∈ candidates ∧ r.ownerOf? c = some t := by
  have hfirst := (r.firstStubs_first h).2
  have howner := List.find?_some hfirst
  exact ⟨List.mem_of_find?_eq_some hfirst, of_decide_eq_true howner⟩

/-- Further candidates come after the others. -/
theorem firstStubs_append (seen : List TypePath) (candidates more : List Candidate) :
    ∃ later, r.firstStubs seen (candidates ++ more) =
      r.firstStubs seen candidates ++ r.firstStubs later more := by
  induction candidates generalizing seen with
  | nil => exact ⟨seen, rfl⟩
  | cons c rest ih =>
    rw [List.cons_append, firstStubs, firstStubs]
    cases r.model.containingType? c.tree c.owner with
    | none => exact ih seen
    | some t =>
      dsimp only
      split
      · exact ih seen
      · obtain ⟨later, hlater⟩ := ih (t :: seen)
        exact ⟨later, by rw [hlater, List.cons_append]⟩

theorem firstStubs_congr {r r' : Resolver} {candidates : List Candidate}
    (h : ∀ c ∈ candidates, r'.ownerOf? c = r.ownerOf? c) (seen : List TypePath) :
    r'.firstStubs seen candidates = r.firstStubs seen candidates := by
  induction candidates generalizing seen with
  | nil => rfl
  | cons c rest ih =>
    obtain ⟨hc, hrest⟩ := List.forall_mem_cons.mp h
    have hsame : r'.model.containingType? c.tree c.owner =
        r.model.containingType? c.tree c.owner := hc
    simp only [firstStubs, hsame, ih hrest]

theorem stubGroup_total {c : Candidate} (h : c.tree.Legible c.node) (t : TypePath) :
    ∃ g, r.stubGroup t c = .ok g := by
  obtain ⟨name, hn⟩ := h.declaredName
  obtain ⟨modifiers, hm⟩ := h.modifiers
  obtain ⟨returnType, hr⟩ := h.returnType
  exact ⟨_, by
    rw [stubGroup, hn, except_ok_bind, hm, except_ok_bind, hr, except_ok_bind]
    rfl⟩

end

end Resolver

/-- A group has the signature of a stub. -/
structure Signed (g : StubGroup TypePath) (tree : SourceTree) (node : Node) : Prop where
  name : tree.declaredName node = .ok g.methodName
  modifiers : tree.modifiers node = .ok g.modifiers
  returns : tree.returnType node = .ok g.returnType
  site : g.site = some ⟨tree, node⟩

theorem stubGroup_ok {r : Resolver} {t : TypePath} {c : Candidate} {g : StubGroup TypePath}
    (h : r.stubGroup t c = .ok g) :
    g.owner = t ∧ Signed g c.tree c.node ∧
      g.fieldNames = (r.model.printableFields t).map FieldEntry.name := by
  obtain ⟨name, hn, h⟩ := except_bind_ok.mp h
  obtain ⟨modifiers, hm, h⟩ := except_bind_ok.mp h
  obtain ⟨returnType, hr, h⟩ := except_bind_ok.mp h
  cases h
  exact ⟨rfl, ⟨hn, hm, hr, rfl⟩, rfl⟩

/-- Stubs count for declared types. -/
theorem hasType_of_owner {trees : List SourceTree} {r : Resolver}
    (hr : Resolver.found trees = .ok r) {c : Candidate} {t : TypePath}
    (h : r.ownerOf? c = some t) : r.model.table.hasType t = true := by
  obtain ⟨hfault, rfl⟩ := Resolver.found_eq hr
  obtain ⟨node, -, hnode⟩ := Option.bind_eq_some_iff.mp h
  exact (build_ok hfault).1.nodesDeclared nodesDeclared_empty _ _ hnode

/-- The groups of the stubs at some places. -/
theorem groups_of_places {r : Resolver} {places : List (SourceTree × Place)}
    {groups : List (StubGroup TypePath)}
    (h : (r.firstStubs [] (places.map candidateAt)).mapM
      (fun stub => r.stubGroup stub.1 stub.2) = .ok groups) :
    groups.map StubGroup.owner = (places.filterMap r.model.table.ownerAt?).eraseDups ∧
      ∀ g ∈ groups, g.fieldNames = (r.model.printableFields g.owner).map FieldEntry.name ∧
        ∃ q, places.find? (fun q => r.model.table.ownerAt? q = some g.owner) = some q ∧
          Signed g q.1 q.2.node := by
  have howner : r.ownerOf? ∘ candidateAt = r.model.table.ownerAt? := rfl
  constructor
  · have howners := r.firstStubs_owners [] (places.map candidateAt)
    simp only [List.contains_nil, Bool.not_false, List.filter_true, List.filterMap_map,
      howner] at howners
    rw [← howners]
    exact map_of_mapM h fun _ _ hg => (stubGroup_ok hg).1
  · intro g hg
    obtain ⟨⟨t, c⟩, hstub, hgroup⟩ := mem_of_mapM h hg
    obtain ⟨rfl, hsigned, hnames⟩ := stubGroup_ok hgroup
    have hfirst := (r.firstStubs_first hstub).2
    rw [List.find?_map] at hfirst
    obtain ⟨q, hq, rfl⟩ := Option.map_eq_some_iff.mp hfirst
    exact ⟨hnames, q, hq, hsigned⟩

/-- The stubs of a well-formed compilation can be found and grouped. -/
theorem resolveStubs_wellFormed (stubName : Option String) {trees : List SourceTree}
    (hw : ∀ tree ∈ trees, tree.WellFormed) :
    ∃ candidates r groups, scan trees stubName = .ok candidates ∧
      Traced.Gives (Resolver.ofTrees trees) (.ok r) ∧
      Traced.Gives (r.resolveStubs candidates.stubs) (.ok groups) := by
  have hstubs : ∀ q ∈ allPlaces trees, ∃ b, q.1.isStub stubName q.2.node = .ok b :=
    fun q hq => (legible_of_mem hw hq).isStub _
  have hscan := scan_ok_iff.mpr ⟨hstubs, rfl⟩
  obtain ⟨r, hr, _⟩ := Resolver.found_wellFormed hw
  have hsigned : ∃ groups, (r.firstStubs [] ((stubPlaces trees stubName).map
      candidateAt)).mapM (fun stub => r.stubGroup stub.1 stub.2) = .ok groups := by
    refine mapM_total fun stub hs => ?_
    have hmem := List.mem_of_find?_eq_some (r.firstStubs_first hs).2
    obtain ⟨q, hq, he⟩ := List.mem_map.mp hmem
    rw [← he]
    exact r.stubGroup_total (legible_of_mem hw (List.mem_filter.mp hq).1) _
  obtain ⟨groups, hg⟩ := hsigned
  exact ⟨_, r, groups, hscan, hr ▸ Resolver.ofTrees_gives trees, hg ▸ r.stubGroups_gives [] _⟩

/-- A well-formed compilation gets through all stages of a pass. -/
theorem stages_wellFormed (s : Settings) {trees : List SourceTree}
    (hw : ∀ tree ∈ trees, tree.WellFormed) :
    ∃ r candidates fields stubs, Stages s trees r candidates fields stubs := by
  obtain ⟨candidates, r, groups, hscan, hr, hg⟩ :=
    resolveStubs_wellFormed s.stubName.string? hw
  exact ⟨r, candidates, _, groups, hscan, hr, r.resolveFields_gives _, hg⟩

namespace Sample

/-! A partial class in two files, to try statements on. The second file has the fields behind a
condition, a property with storage, and a nested class. -/

open Marker (node identifier)

def first : SourceTree :=
  ⟨.source 0, "first.cs", "using PrintableFields; ".toList ++
    "namespace N \x7b partial class A \x7b ".toList ++
    "[Printable] int x, y; const int ".toList ++
    "c; \x7d \x7d".toList, false,
    node (.other "compilation_unit") 0 93 none [
      node .usingDirective 0 22 none [identifier 6 21 none],
      node .namespaceDeclaration 23 93 none [
        identifier 33 34 (some .name),
        node .declarationList 35 93 (some (.other "body")) [
          node (.typeDeclaration .classType) 37 91 none [
            node .modifier 37 44 none [],
            identifier 51 52 (some .name),
            node .declarationList 53 91 (some (.other "body")) [
              node .fieldDeclaration 55 76 none [
                node .attributeList 55 66 none [
                  node .attributeUse 56 65 none [identifier 56 65 (some .name)]],
                node .variableDeclaration 67 75 none [
                  node (.other "predefined_type") 67 70 (some .type) [],
                  node .variableDeclarator 71 72 none [identifier 71 72 (some .name)],
                  node .variableDeclarator 74 75 none [identifier 74 75 (some .name)]]],
              node .fieldDeclaration 77 89 none [
                node .modifier 77 82 none [],
                node .variableDeclaration 83 88 none [
                  node (.other "predefined_type") 83 86 (some .type) [],
                  node .variableDeclarator 87 88 none [identifier 87 88 (some .name)]]]]]]]]⟩

def second : SourceTree :=
  ⟨.source 1, "second.cs", "namespace N \x7b partial class A ".toList ++
    "\x7b\n#if ".toList ++
    "D\n[PrintableFields.Printable] ".toList ++
    "int z; event E e;\n#endif\nint P ".toList ++
    "\x7b get; \x7d class B \x7b int b; \x7d ".toList ++
    "partial void PrintAllFields(); ".toList ++
    "\x7d \x7d".toList, false,
    node (.other "compilation_unit") 0 159 none [
      node .namespaceDeclaration 0 159 none [
        identifier 10 11 (some .name),
        node .declarationList 12 159 (some (.other "body")) [
          node (.typeDeclaration .classType) 14 157 none [
            node .modifier 14 21 none [],
            identifier 28 29 (some .name),
            node .declarationList 30 157 (some (.other "body")) [
              node (.wrapper .preprocIf) 32 90 none [
                identifier 36 37 (some (.other "condition")),
                node .fieldDeclaration 38 72 none [
                  node .attributeList 38 65 none [
                    node .attributeUse 39 64 none [
                      node (.name .qualified) 39 64 (some .name) [
                        identifier 39 54 (some .qualifier),
                        identifier 55 64 (some .name)]]],
                  node .variableDeclaration 66 71 none [
                    node (.other "predefined_type") 66 69 (some .type) [],
                    node .variableDeclarator 70 71 none [identifier 70 71 (some .name)]]],
                node .eventFieldDeclaration 73 83 none [
                  node .variableDeclaration 79 82 none [
                    identifier 79 80 (some .type),
                    node .variableDeclarator 81 82 none [identifier 81 82 (some .name)]]]],
              node .propertyDeclaration 91 105 none [
                node (.other "predefined_type") 91 94 (some .type) [],
                identifier 95 96 (some .name),
                node .accessorList 97 105 (some (.other "accessors")) [
                  node .accessorDeclaration 99 103 none []]],
              node (.typeDeclaration .classType) 106 124 none [
                identifier 112 113 (some .name),
                node .declarationList 114 124 (some (.other "body")) [
                  node .fieldDeclaration 116 122 none [
                    node .variableDeclaration 116 121 none [
                      node (.other "predefined_type") 116 119 (some .type) [],
                      node .variableDeclarator 120 121 none [identifier 120 121 (some .name)]]]]],
              node .methodDeclaration 125 155 none [
                node .modifier 125 132 none [],
                node (.other "predefined_type") 133 137 (some .returns) [],
                identifier 138 152 (some .name),
                node .parameterList 152 154 (some .parameters) []]]]]]]⟩

def trees : List SourceTree :=
  [first, second]

/-- The class that both files declare. -/
def owner : TypePath :=
  .top (.child .global "N") ⟨"A", 0⟩

theorem wellFormed : ∀ tree ∈ trees, tree.WellFormed := by
  decide +kernel

end Sample

/-- **The groups of stubs, read off the trees.** There is one group for each type that the nearest
declaration around some stub declares, in the order of the first stubs, and with the signature of
the first stub. The printed names are those of the fields and field-like events in the bodies of
all declarations of the type, in order. -/
theorem stub_groups_of_trees (trees : List SourceTree) (stubName : Option String)
    (hids : ((trees ++ [Marker.tree]).map SourceTree.id).Nodup)
    (hkeys : ∀ tree ∈ trees, KeysDistinct Kind.isTypeDeclaration tree) :
    (∀ candidates r groups before mid after later,
      scan trees stubName = .ok candidates → Resolver.ofTrees trees before = .ok r mid →
      r.resolveStubs candidates.stubs after = .ok groups later →
      groups.map StubGroup.owner =
        ((stubPlaces trees stubName).filterMap r.model.table.ownerAt?).eraseDups ∧
      ∀ g ∈ groups,
        (∃ q, (stubPlaces trees stubName).find?
            (fun q => r.model.table.ownerAt? q = some g.owner) = some q ∧
          Signed g q.1 q.2.node) ∧
        collect (fun q => printedAt r.model.table g.owner q.1 q.2) (allPlaces trees) =
          .ok g.fieldNames) ∧
    ((∀ tree ∈ trees, tree.WellFormed) → ∃ candidates r groups,
      scan trees stubName = .ok candidates ∧ Traced.Gives (Resolver.ofTrees trees) (.ok r) ∧
      Traced.Gives (r.resolveStubs candidates.stubs) (.ok groups)) := by
  constructor
  · intro candidates r groups before mid after later hscan hr hg
    obtain ⟨_, rfl⟩ := scan_ok_iff.mp hscan
    have hfound := ((Resolver.ofTrees_gives trees).eq_ok trivial hr).1
    have hgroups := ((r.stubGroups_gives [] _).eq_ok trivial hg).1
    obtain ⟨howners, hall⟩ := groups_of_places hgroups
    refine ⟨howners, fun g hmem => ?_⟩
    obtain ⟨hnames, hfirst⟩ := hall g hmem
    refine ⟨hfirst, ?_⟩
    rw [hnames]
    exact printableFields_names hids hkeys hfound g.owner
  · exact resolveStubs_wellFormed stubName

theorem stub_groups_of_sample : ∃ candidates r groups,
    scan Sample.trees (some "PrintAllFields") = .ok candidates ∧
    Traced.Gives (Resolver.ofTrees Sample.trees) (.ok r) ∧
    Traced.Gives (r.resolveStubs candidates.stubs) (.ok groups) ∧
    groups.map StubGroup.owner = [Sample.owner] ∧
    groups.map StubGroup.fieldNames = [["x", "y", "z", "e"]] := by
  have hspec := stub_groups_of_trees Sample.trees (some "PrintAllFields")
    (by decide +kernel) (by decide +kernel)
  obtain ⟨candidates, r, groups, hscan, hr, hg⟩ := hspec.2 Sample.wellFormed
  obtain ⟨mid, hmid, _⟩ := hr [] trivial
  obtain ⟨later, hlater, _⟩ := hg [] trivial
  obtain ⟨howners, hgroups⟩ := hspec.1 candidates r groups [] mid [] later hscan hmid hlater
  have hmodel := Resolver.found_model (Resolver.found_of_gives hr)
  have hsample : ((stubPlaces Sample.trees (some "PrintAllFields")).filterMap
      (Resolver.compiled Sample.trees).model.table.ownerAt?).eraseDups = [Sample.owner] ∧
      (collect (fun q => printedAt (Resolver.compiled Sample.trees).model.table Sample.owner
        q.1 q.2) (allPlaces Sample.trees)).toOption = some ["x", "y", "z", "e"] := by
    rw [Resolver.compiled, Marker.tree_parts]
    decide +kernel
  rw [← hmodel] at hsample
  obtain ⟨hone, hnames⟩ := hsample
  obtain ⟨g, rfl, howner⟩ := List.map_eq_singleton_iff.mp (howners.trans hone)
  have hprinted := (hgroups g (by simp)).2
  rw [howner] at hprinted
  rw [hprinted] at hnames
  exact ⟨candidates, _, [g], hscan, hr, hg, by rw [List.map_singleton, howner],
    by rw [List.map_singleton, Option.some.inj hnames]⟩

end PrintGen
