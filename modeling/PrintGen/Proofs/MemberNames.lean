import PrintGen.Proofs.Settlement

/-!
# The methods that a type gets

Both fragments of a type add methods to it, one for each marked field and one for the stub. The two
lists are named apart from each other: a method for a field has the prefix before the name of the
field, and the method for the stub has the name of the stub. With the default options the names
are distinct if those of the fields are, unless the stub meets a field named `AllFields`, or the
same field is found through two declarations that share a key.
-/

namespace PrintGen

open Syntax Symbols
open Text (CodeText)
open Text.CodeText (ofString)

/-! ## Methods in the text of a fragment -/

namespace Render

/-- A generated method: what stands before its name, its name, and the fields that it prints. -/
structure Method where
  heading : CodeText
  name : CodeText
  printed : List CodeText

/-- The text of a method. -/
def Method.text (m : Method) : CodeText :=
  ofString "    " ++ m.heading ++ ofString " " ++ m.name ++ ofString "()\n    \x7b\n" ++
    (m.printed.flatMap fun field => ofString "        " ++ printStatement field) ++
    ofString "    \x7d\n"

/-- A partial declaration that holds methods, an empty line between each two. -/
def typeBody (header : CodeText) (methods : List Method) : CodeText :=
  header ++ ofString "\n\x7b\n" ++ List.intercalate (ofString "\n") (methods.map Method.text) ++
    ofString "\x7d"

theorem printMethod_eq (methodPrefix field : CodeText) :
    printMethod methodPrefix field =
      (Method.mk (ofString "private void") (methodPrefix ++ field) [field]).text := by
  have hstart : ofString "    private void " =
      ofString "    " ++ ofString "private void" ++ ofString " " := by decide
  have hopen : ofString "()\n    \x7b\n        " =
      ofString "()\n    \x7b\n" ++ ofString "        " := by decide
  simp only [printMethod, Method.text, hstart, hopen, List.flatMap_singleton, List.append_assoc]

theorem methodsBody_eq (header methodPrefix : CodeText) (fields : List CodeText) :
    methodsBody header methodPrefix fields = typeBody header (fields.map fun field =>
      ⟨ofString "private void", methodPrefix ++ field, [field]⟩) := by
  simp only [methodsBody, typeBody, List.map_map, Function.comp_def, ← printMethod_eq]

theorem summaryBody_eq (header heading name : CodeText) (fields : List CodeText) :
    summaryBody header (heading ++ ofString " " ++ name ++ ofString "()") fields =
      typeBody header [⟨heading, name, fields⟩] := by
  have hstart : ofString "\n\x7b\n    " = ofString "\n\x7b\n" ++ ofString "    " := by decide
  have hopen : ofString "()\n    \x7b\n" = ofString "()" ++ ofString "\n    \x7b\n" := by decide
  have hclose : ofString "    \x7d\n\x7d" = ofString "    \x7d\n" ++ ofString "\x7d" := by decide
  simp only [summaryBody, typeBody, Method.text, hstart, hopen, hclose, List.map_singleton,
    List.intercalate_singleton, List.append_assoc]

end Render

/-- The fragment that adds methods to a type. -/
def typeFragment (s : Settings) (m : Model) (key : String) (t : TypePath)
    (methods : List Render.Method) : Fragment :=
  ⟨key, Render.fragment (Render.typeBody (ofString (m.header t).text) methods)
    (ofString t.home.display) (ofString s.commentLine)⟩

/-- The methods for fields with these names. -/
def fieldMethods (s : Settings) (names : List String) : List Render.Method :=
  names.map fun name =>
    ⟨ofString "private void", s.methodPrefix.asText ++ ofString name, [ofString name]⟩

/-- The method that implements a stub. -/
def StubGroup.method {ι : Type} (g : StubGroup ι) : Render.Method :=
  ⟨ofString (" ".intercalate (g.modifiers ++ [g.returnType])), ofString g.methodName,
    g.fieldNames.map ofString⟩

theorem methodsFragment_eq (s : Settings) (m : Model) (stem : String) (t : TypePath)
    (names : List String) : methodsFragment s m stem t names =
      typeFragment s m (fragmentKey stem methodsSuffix) t (fieldMethods s names) := by
  rw [methodsFragment, typeFragment, Render.printMethods, Render.methodsBody_eq, List.map_map]
  rfl

theorem intercalate_concat {α : Type} (sep last : List α) {as : List (List α)} (h : as ≠ []) :
    sep.intercalate (as ++ [last]) = sep.intercalate as ++ sep ++ last := by
  induction as with
  | nil => exact absurd rfl h
  | cons a rest ih =>
    cases rest with
    | nil => simp [List.intercalate_cons_cons]
    | cons b rest =>
      have hrest := ih (by simp)
      simp only [List.cons_append, List.intercalate_cons_cons] at hrest ⊢
      rw [hrest]
      simp only [List.append_assoc]

theorem signature_eq {ι : Type} (g : StubGroup ι) :
    ofString g.signature = g.method.heading ++ ofString " " ++ g.method.name ++ ofString "()" := by
  have hlast : g.modifiers ++ [g.returnType, g.methodName ++ "()"] =
      (g.modifiers ++ [g.returnType]) ++ [g.methodName ++ "()"] := by simp
  have hsplit : g.signature =
      " ".intercalate (g.modifiers ++ [g.returnType]) ++ " " ++ g.methodName ++ "()" := by
    rw [← String.toList_inj, StubGroup.signature, hlast]
    simp only [String.toList_intercalate, String.toList_append]
    rw [List.map_append, List.map_singleton, intercalate_concat _ _ (by simp),
      String.toList_append]
    simp only [List.append_assoc]
  rw [hsplit]
  simp only [Text.CodeText.ofString_append]
  rfl

theorem stubFragment_eq (s : Settings) (m : Model) (stem : String) (g : StubGroup TypePath) :
    stubFragment s m stem g =
      typeFragment s m (fragmentKey stem g.methodName) g.owner [g.method] := by
  rw [stubFragment, typeFragment, Render.printAll, signature_eq, Render.summaryBody_eq]
  rfl

/-- The methods that the fragments of a pass add to a type. -/
def membersOf (s : Settings) (fields : List (ResolvedField TypePath))
    (stubs : List (StubGroup TypePath)) (t : TypePath) : List Render.Method :=
  fieldMethods s ((groupOf fields t).map ResolvedField.name) ++
    (stubs.filter fun stub => stub.owner = t).map StubGroup.method

/-! ## Names that meet -/

/-- A list without repetitions has one entry for each value that it has. -/
theorem filter_eq_singleton {α β : Type} [DecidableEq β] {f : α → β} {as : List α}
    (h : (as.map f).Nodup) {b : β} (hb : b ∈ as.map f) :
    ∃ a ∈ as, as.filter (fun a => f a = b) = [a] := by
  have hcount : (as.filter fun a => f a = b).length = 1 := by
    rw [← List.countP_eq_length_filter, ← List.count_eq_one_of_mem h hb, List.count,
      List.countP_map]
    congr 1
  obtain ⟨a, ha⟩ := List.length_eq_one_iff.mp hcount
  exact ⟨a, (List.mem_filter.mp (ha ▸ List.mem_singleton_self a)).1, ha⟩

/-- **With the default options, names meet where the names of fields do, or where a field named
`AllFields` meets a stub.** -/
theorem membersOf_nodup_iff {fields : List (ResolvedField TypePath)}
    {stubs : List (StubGroup TypePath)} (howners : (stubs.map StubGroup.owner).Nodup)
    (hnames : ∀ stub ∈ stubs, stub.methodName = "PrintAllFields") (t : TypePath) :
    ((membersOf .default fields stubs t).map Render.Method.name).Nodup ↔
      ((groupOf fields t).map ResolvedField.name).Nodup ∧
      ¬ (t ∈ stubs.map StubGroup.owner ∧
        "AllFields" ∈ (groupOf fields t).map ResolvedField.name) := by
  have hall : (membersOf .default fields stubs t).map Render.Method.name =
      ((groupOf fields t).map ResolvedField.name).map (fun name => ofString ("Print" ++ name)) ++
        (stubs.filter fun stub => stub.owner = t).map fun stub => ofString stub.methodName := by
    simp only [membersOf, fieldMethods, List.map_append, List.map_map, Function.comp_def,
      Text.CodeText.ofString_append]
    rfl
  have hinj : Function.Injective fun name => ofString ("Print" ++ name) := by
    intro a b h
    rw [← String.toList_inj]
    have hlist := congrArg String.toList (Text.CodeText.ofString_inj h)
    simpa only [String.toList_append, List.append_cancel_left_eq] using hlist
  rw [hall, List.nodup_append, List.nodup_map_iff hinj]
  by_cases ht : t ∈ stubs.map StubGroup.owner
  · obtain ⟨stub, hstub, hone⟩ := filter_eq_singleton howners ht
    have hmeet : ofString "PrintAllFields" =
        (fun name => ofString ("Print" ++ name)) "AllFields" := rfl
    simp only [hone, List.map_singleton, hnames stub hstub, List.nodup_singleton, true_and, ht,
      List.mem_singleton, forall_eq, hmeet]
    refine and_congr_right fun _ => ⟨fun h hmem => h _ (List.mem_map_of_mem hmem) rfl, ?_⟩
    intro h a ha he
    exact h ((List.mem_map_of_injective hinj).mp (he ▸ ha))
  · have hnone : stubs.filter (fun stub => stub.owner = t) = [] := by
      rw [List.filter_eq_nil_iff]
      intro stub hstub he
      exact ht (of_decide_eq_true he ▸ List.mem_map_of_mem hstub)
    simp [hnone, ht]

/-! ## Fields that are found twice -/

/-- No two of these declarations share a key that marked fields of the type come from. -/
def FoundOnce (m : Model) (t : TypePath) (sites : List Site) : Prop :=
  sites.Pairwise fun a b => a.key = b.key →
    ∀ f ∈ m.fieldsOf t, f.isMarked = true → f.field.origin ≠ some a.key

theorem foundOnce_of_keys {m : Model} {t : TypePath} {sites : List Site}
    (h : (sites.map Site.key).Nodup) : FoundOnce m t sites :=
  (List.pairwise_map.mp h).imp fun hne he => absurd he hne

/-- The names that the declarations with a key add to the group of a type. -/
def namesFrom (m : Model) (t : TypePath) (key : NodeKey) : List String :=
  ((m.fieldsOf t).filter fun f => f.isMarked && decide (f.field.origin = some key)).map
    fun f => f.field.name

theorem mem_namesFrom {m : Model} {t : TypePath} {key : NodeKey} {name : String} :
    name ∈ namesFrom m t key ↔ ∃ f ∈ m.fieldsOf t, f.isMarked = true ∧
      f.field.origin = some key ∧ f.field.name = name := by
  simp [namesFrom, and_assoc]

/-- The group of a type is put together from the declarations that a scan finds. -/
theorem groupOf_markedAmong {trees : List SourceTree} {r : Resolver}
    (hr : Resolver.found trees = .ok r) (candidates : List Candidate) (t : TypePath) :
    (groupOf (r.markedAmong candidates) t).map ResolvedField.name =
      (candidates.map fun c => Site.mk c.tree c.node).flatMap fun s =>
        namesFrom r.model t s.key := by
  have hmarked : r.isMarked = BoundField.isMarked := funext (Resolver.isMarked_eq hr)
  rw [groupOf, Resolver.markedAmong, confirmed_marked, List.filter_map, List.map_map, hmarked,
    List.filter_flatMap, List.filter_flatMap, List.map_flatMap, List.flatMap_map]
  congr 1
  funext c
  simp only [namesFrom, Model.declaredFields, Model.fieldsOf, List.filter_filter]
  congr 1
  apply List.filter_congr
  intro f _
  exact Bool.and_comm _ _

theorem mem_groupOf_markedAmong {trees : List SourceTree} {stubName : Option String}
    {candidates : Candidates} {r : Resolver} (hscan : scan trees stubName = .ok candidates)
    (hr : Resolver.found trees = .ok r) {t : TypePath} {name : String} :
    name ∈ (groupOf (r.markedAmong candidates.fields) t).map ResolvedField.name ↔
      ∃ f ∈ r.model.fieldsOf t, f.isMarked = true ∧ f.field.name = name := by
  constructor
  · intro h
    rw [groupOf_markedAmong hr, List.mem_flatMap] at h
    obtain ⟨s, _, hs⟩ := h
    obtain ⟨f, hf, hm, _, hn⟩ := mem_namesFrom.mp hs
    exact ⟨f, hf, hm, hn⟩
  · rintro ⟨f, hf, hm, rfl⟩
    obtain ⟨hmem, ho⟩ := List.mem_filter.mp hf
    have hin := confirmed_mem_markedAmong hscan hr hmem hm
    exact List.mem_map.mpr ⟨Resolver.confirmed f,
      List.mem_filter.mpr ⟨List.mem_filter.mpr ⟨hin, rfl⟩, ho⟩, rfl⟩

/-- **Where the fields of a type have distinct names, a name comes twice only if a field is found
twice.** -/
theorem groupOf_nodup_iff {trees : List SourceTree} {r : Resolver}
    (hr : Resolver.found trees = .ok r) {t : TypePath}
    (hnames : ((r.model.fieldsOf t).map fun f => f.field.name).Nodup)
    (candidates : List Candidate) :
    ((groupOf (r.markedAmong candidates) t).map ResolvedField.name).Nodup ↔
      FoundOnce r.model t (candidates.map fun c => Site.mk c.tree c.node) := by
  rw [groupOf_markedAmong hr, List.nodup_flatMap]
  have hblocks : ∀ s : Site, (namesFrom r.model t s.key).Nodup := fun s =>
    hnames.sublist (List.filter_sublist.map _)
  rw [and_iff_right fun s _ => hblocks s, FoundOnce]
  refine List.Pairwise.iff fun a b => ?_
  change List.Disjoint (namesFrom r.model t a.key) (namesFrom r.model t b.key) ↔ _
  rw [List.disjoint_left]
  constructor
  · intro hdisjoint hkey f hf hm ho
    have hmem : f.field.name ∈ namesFrom r.model t a.key := mem_namesFrom.mpr ⟨f, hf, hm, ho, rfl⟩
    exact hdisjoint hmem (hkey ▸ hmem)
  · intro honce name ha hb
    obtain ⟨f, hf, hm, ho, hn⟩ := mem_namesFrom.mp ha
    obtain ⟨f', hf', _, ho', hn'⟩ := mem_namesFrom.mp hb
    -- Fields of the type with the same name are the same field, so the keys agree.
    obtain rfl := List.inj_on_of_nodup_map hnames hf hf' (hn.trans hn'.symm)
    exact honce (Option.some.inj (ho.symm.trans ho')) f hf hm ho

/-- The declarations that a scan finds, as sites. -/
def annotatedSites (trees : List SourceTree) : List Site :=
  (allSites trees).filter fun s => s.node.isAnnotatedField

theorem annotatedSites_keys {trees : List SourceTree} (hids : (trees.map SourceTree.id).Nodup)
    (hkeys : ∀ tree ∈ trees, KeysDistinct (fun kind => kind = .fieldDeclaration) tree) :
    ((annotatedSites trees).map Site.key).Nodup := by
  refine (allSites_keys hids hkeys).sublist (List.Sublist.map _ ?_)
  refine List.monotone_filter_right _ fun s hs => ?_
  rw [Node.isAnnotatedField, Bool.and_eq_true] at hs
  exact hs.1

namespace Stages

variable {trees : List SourceTree} {r : Resolver} {candidates : Candidates}
  {fields : List (ResolvedField TypePath)} {stubs : List (StubGroup TypePath)}

theorem members_nodup_iff (h : Stages .default trees r candidates fields stubs) {t : TypePath}
    (hnames : ((r.model.fieldsOf t).map fun f => f.field.name).Nodup) :
    ((membersOf .default fields stubs t).map Render.Method.name).Nodup ↔
      FoundOnce r.model t (annotatedSites trees) ∧
      ¬ (t ∈ stubs.map StubGroup.owner ∧
        ∃ f ∈ r.model.fieldsOf t, f.isMarked = true ∧ f.field.name = "AllFields") := by
  have howners : (stubs.map StubGroup.owner).Nodup := by
    rw [h.groups.1]
    exact nodup_eraseDups _
  have hstub : ∀ stub ∈ stubs, stub.methodName = "PrintAllFields" := fun stub hs =>
    (Option.some.inj (h.stub_method hs).1).symm
  rw [membersOf_nodup_iff howners hstub, h.fields_eq, groupOf_nodup_iff h.found hnames,
    mem_groupOf_markedAmong h.scanned h.found, scan_sites h.scanned]
  rfl

end Stages

namespace Sample

open Marker (node)

/-- A class in which a field and the stub ask for methods of the same name. -/
def clash : SourceTree :=
  ⟨.source 0, "clash.cs", "partial class C \x7b [PrintableFields.".toList ++
    "Printable] int AllFields; partial void ".toList ++
    "PrintAllFields(); \x7d".toList, false,
    node (.other "compilation_unit") 0 93 none [classWithBoth 0 93 9 []]⟩

def clashClass : TypePath :=
  .top .global ⟨"C", 0⟩

end Sample

/-- **The methods of a type have distinct names unless two of them meet.** All fragments after the
marker hold methods of one type each. Over both fragments of a type whose fields have distinct
names, the names of the methods are distinct exactly if no marked field is found twice and the type
does not have a stub and a marked field named `AllFields`. No field is found twice if the trees are
distinct and no two field declarations of a tree share a key. -/
theorem member_names_distinct_iff {trees : List SourceTree} {g : Generated} {before after : Trace}
    (h : generate .default trees before = .ok g after) :
    ∃ (r : Resolver) (candidates : Candidates) (fields : List (ResolvedField TypePath))
      (stubs : List (StubGroup TypePath)),
      Stages .default trees r candidates fields stubs ∧
      g.fragments = Marker.fragment ::
        (((groupOwners fields).filter TypePath.isTopLevel).map fun t =>
          typeFragment .default r.model (fragmentKey (stemOf fields stubs t) methodsSuffix) t
            (fieldMethods .default ((groupOf fields t).map ResolvedField.name))) ++
        ((stubs.filter fun stub => stub.owner.isTopLevel).map fun stub =>
          typeFragment .default r.model
            (fragmentKey (stemOf fields stubs stub.owner) stub.methodName) stub.owner
            [stub.method]) ∧
      (∀ t, ((r.model.fieldsOf t).map fun f => f.field.name).Nodup →
        (((membersOf .default fields stubs t).map Render.Method.name).Nodup ↔
          FoundOnce r.model t (annotatedSites trees) ∧
          ¬ (t ∈ stubs.map StubGroup.owner ∧
            ∃ f ∈ r.model.fieldsOf t, f.isMarked = true ∧ f.field.name = "AllFields"))) ∧
      ((trees.map SourceTree.id).Nodup →
        (∀ tree ∈ trees, KeysDistinct (fun kind => kind = .fieldDeclaration) tree) →
        ∀ t, FoundOnce r.model t (annotatedSites trees)) := by
  obtain ⟨r, candidates, fields, stubs, hst, _, hg⟩ := generate_ok h
  refine ⟨r, candidates, fields, stubs, hst, ?_, fun t => hst.members_nodup_iff, ?_⟩
  · simp only [hg, allFragments, typeFragments, methodsFragment_eq, stubFragment_eq,
      List.cons_append]
  · intro hids hkeys t
    exact foundOnce_of_keys (annotatedSites_keys hids hkeys)

theorem members_of_nesting : ∃ (g : Generated) (after : Trace)
    (fields : List (ResolvedField TypePath)) (stubs : List (StubGroup TypePath)),
    generate .default [Sample.nesting] [] = .ok g after ∧
    g.keys = [Marker.metadataName, "A.Printables", "A.PrintAllFields"] ∧
    ((membersOf .default fields stubs Sample.outerClass).map Render.Method.name).Nodup := by
  have hsample : (generated .default [Sample.nesting]).toOption.map Generated.keys =
        some [Marker.metadataName, "A.Printables", "A.PrintAllFields"] ∧
      ((Resolver.compiled [Sample.nesting]).model.fieldsOf Sample.outerClass).map
        (fun f => f.field.name) = ["x"] := by
    rw [generated, Resolver.found, Resolver.compiled, Marker.tree_parts]
    decide +kernel
  obtain ⟨hrun, hx⟩ := hsample
  have hsome : (generated .default [Sample.nesting]).toOption.isSome = true := by
    rw [← Option.isSome_map, hrun]
    rfl
  obtain ⟨g, after, hg⟩ := generate_of_generated hsome []
  rw [generated_of_generate hg] at hrun
  obtain ⟨r, _, fields, stubs, hst, _, hiff, honce⟩ := member_names_distinct_iff hg
  rw [← Resolver.found_model hst.found] at hx
  refine ⟨g, after, fields, stubs, hg, Option.some.inj hrun,
    (hiff _ (by rw [hx]; decide)).mpr ⟨honce (by decide) (by decide +kernel) _, ?_⟩⟩
  rintro ⟨-, f, hf, -, hn⟩
  have hmem : f.field.name ∈ ["x"] := hx ▸ List.mem_map_of_mem hf
  rw [hn] at hmem
  exact absurd hmem (by decide)

/-- A field named `AllFields` and a stub give a type two methods of the same name. -/
theorem field_method_meets_stub : ∃ (r : Resolver) (candidates : Candidates)
    (fields : List (ResolvedField TypePath)) (stubs : List (StubGroup TypePath)) (g : Generated)
    (after : Trace),
    Stages .default [Sample.clash] r candidates fields stubs ∧
    generate .default [Sample.clash] [] = .ok g after ∧
    ((r.model.fieldsOf Sample.clashClass).map fun f => f.field.name).Nodup ∧
    ¬ ((membersOf .default fields stubs Sample.clashClass).map Render.Method.name).Nodup := by
  have hsample : (generated .default [Sample.clash]).toOption.isSome = true ∧
      ((Resolver.compiled [Sample.clash]).model.fieldsOf Sample.clashClass).map
        (fun f => (f.isMarked, f.field.name)) = [(true, "AllFields")] ∧
      ((stubPlaces [Sample.clash] (some "PrintAllFields")).filterMap
        (Resolver.compiled [Sample.clash]).model.table.ownerAt?).eraseDups =
          [Sample.clashClass] := by
    rw [generated, Resolver.found, Resolver.compiled, Marker.tree_parts]
    decide +kernel
  obtain ⟨hrun, hfields, hstubs⟩ := hsample
  obtain ⟨g, after, hg⟩ := generate_of_generated hrun []
  obtain ⟨r, candidates, fields, stubs, hst, _, _⟩ := generate_ok hg
  rw [← Resolver.found_model hst.found] at hfields hstubs
  obtain ⟨f, hf, hpair⟩ := List.map_eq_singleton_iff.mp hfields
  obtain ⟨hm, hn⟩ := Prod.mk.inj hpair
  have hnames : ((r.model.fieldsOf Sample.clashClass).map fun f => f.field.name).Nodup := by
    rw [hf]
    exact List.nodup_singleton _
  refine ⟨r, candidates, fields, stubs, g, after, hst, hg, hnames, ?_⟩
  rw [hst.members_nodup_iff hnames]
  refine fun hboth => hboth.2 ⟨?_, f, hf ▸ List.mem_singleton_self f, hm, hn⟩
  rw [hst.groups.1]
  exact hstubs ▸ List.mem_singleton_self _

end PrintGen
