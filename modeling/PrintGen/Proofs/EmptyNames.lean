import PrintGen.Proofs.Keys
import PrintGen.Proofs.RootNamespaces

/-!
# Empty names

Where an identifier is missing, a type or a namespace gets an empty name, and a pass goes on with
it. The one thing that can go wrong comes from empty names that a namespace begins with: they leave
no trace in metadata names, so that types on both sides of such a name have the same key. A pass
with the default settings stops at two types like this, and in all other cases it returns.
-/

namespace PrintGen

open Syntax Symbols

/-! ## What declared types are called -/

namespace Symbols

section

variable {P : String → Prop} {tree : SourceTree}

theorem segmentsOf_all {node : Node} (h : tree.Identifiers P node) (hempty : P "")
    {segments : List Segment} (hs : segmentsOf tree node = .ok segments) :
    ∀ s ∈ segments, P s.name :=
  forall_segmentsOf hs fun _ _ hnode hname =>
    (h.child (namespaceName?_mem hnode)).segments hempty hname

theorem withScope_all (tree : SourceTree) {segments : List Segment}
    (hs : ∀ s ∈ segments, P s.name) {scope : Scope} (h : scope.home.All P) (table : Table) :
    (Table.withScope tree segments scope table).1.home.All P := by
  induction segments generalizing scope table with
  | nil => exact h
  | cons s rest ih =>
    obtain ⟨hhead, hrest⟩ := List.forall_mem_cons.mp hs
    refine ih hrest ?_ _
    exact ⟨h, hhead⟩

theorem typeOf_all {node : Node} (h : tree.Identifiers P node) (hempty : P "") {scope : Scope}
    (hscope : scope.home.All P) {within : Option TypePath} (hw : ∀ t ∈ within, t.All P)
    {t : TypePath} {parameters : List String}
    (ht : typeOf tree node scope within = .ok (t, parameters)) : t.All P := by
  obtain ⟨name, hname, hrest⟩ := except_bind_ok.mp ht
  obtain ⟨_, _, he⟩ := except_bind_ok.mp hrest
  cases he
  have hown := h.declaredName hempty hname
  cases within with
  | none => exact ⟨hscope, hown⟩
  | some outer => exact ⟨hw outer rfl, hown⟩

/-- All names that lead to the types of a table have a property. -/
def Called (P : String → Prop) (table : Table) : Prop :=
  ∀ t ∈ table.paths, t.All P

theorem Called.of_types {table last : Table} (h : Called P table)
    (ht : last.types = table.types) : Called P last := by
  rw [Called, Table.paths, ht]
  exact h

theorem Called.withType {table : Table} (h : Called P table) (node : Node) (kind : TypeKind)
    (scope : Scope) {t : TypePath} (ht : t.All P) (parameters : List String) :
    Called P (table.withType tree node kind scope t parameters) := by
  intro u hu
  rw [Table.withType_eq] at hu
  change u ∈ (table.withDeclaration t _ _ _).paths at hu
  rw [Table.withDeclaration_paths] at hu
  split at hu
  · exact h u hu
  · rcases List.mem_append.mp hu with hold | hnew
    · exact h u hold
    · rw [List.mem_singleton.mp hnew]
      exact ht

/-- **Types and namespaces are called by identifiers, or have empty names.** -/
theorem Declares.called {scope : Scope} {within : Option TypePath} {nodes : List Node}
    {table last : Table} (h : Declares tree scope within nodes table last)
    (hp : ∀ node ∈ nodes, tree.Identifiers P node) (hempty : P "") (hs : scope.home.All P)
    (hw : ∀ t ∈ within, t.All P) (hc : Called P table) : Called P last := by
  induction h with
  | nil => exact hc
  | directive hk hd hr ih =>
    exact ih (List.forall_mem_cons.mp hp).2 hs hw
      (hc.of_types (Table.withDirective_types _ _ _ _ _))
  | @block scope within node rest table mid last segments hk hn hb hr ihb ihr =>
    obtain ⟨hnode, hrest⟩ := List.forall_mem_cons.mp hp
    have hhome := withScope_all tree (segmentsOf_all hnode hempty hn) hs table
    exact ihr hrest hs hw (ihb (fun n hn => hnode.of_mem (members_mem hn)) hhome
      (fun t ht => by cases ht) (hc.of_types (Table.withScope_types _ _ _ _)))
  | @file scope within node rest table mid last segments hk hn hb hr ihb ihr =>
    obtain ⟨hnode, hrest⟩ := List.forall_mem_cons.mp hp
    have hhome := withScope_all tree (segmentsOf_all hnode hempty hn) hs table
    -- The nodes after a file-scoped namespace stand in its scope, too.
    exact ihr hrest hhome hw (ihb (fun n hn => hnode.child hn) hhome
      (fun t ht => by cases ht) (hc.of_types (Table.withScope_types _ _ _ _)))
  | storage hk hf hr ih => exact ih (List.forall_mem_cons.mp hp).2 hs hw (hc.of_types rfl)
  | @type scope within node rest table mid last kind t parameters hk ht hb hr ihb ihr =>
    obtain ⟨hnode, hrest⟩ := List.forall_mem_cons.mp hp
    have hall := typeOf_all hnode hempty hs hw ht
    refine ihr hrest hs hw (ihb (fun n hn => hnode.of_mem (openMembers_mem hn)) hs ?_
      (hc.withType _ _ _ hall _))
    rintro u ⟨⟩
    exact hall
  | @wrapper scope within node rest table mid last w hk hb hr ihb ihr =>
    obtain ⟨hnode, hrest⟩ := List.forall_mem_cons.mp hp
    exact ihr hrest hs hw (ihb (fun n hn => hnode.child hn) hs hw hc)
  | skip hk hs' hr ih => exact ih (List.forall_mem_cons.mp hp).2 hs hw hc

theorem DeclaresTrees.called {trees : List SourceTree} {table last : Table}
    (h : DeclaresTrees trees table last)
    (hp : ∀ tree ∈ trees, tree.Identifiers P tree.root) (hempty : P "") (hc : Called P table) :
    Called P last := by
  induction h with
  | nil => exact hc
  | cons ht hr ih =>
    obtain ⟨htree, htrees⟩ := List.forall_mem_cons.mp hp
    exact ih htrees (Declares.called ht (fun n hn => htree.child hn) hempty trivial
      (fun t ht => by cases ht) (hc.of_types rfl))

end

end Symbols

theorem Marker.identifiers_unseparated : Marker.tree.Identifiers Unseparated Marker.tree.root := by
  rw [Marker.tree_parts]
  decide +kernel

/-! ## Lookalikes -/

theorem Symbols.Namespace.trimmed_of_root {n : Namespace} (h : n.root? ≠ some "") :
    n.trimmed = n := by
  induction n with
  | global => rfl
  | child parent name ih =>
    cases parent with
    | global =>
      have hname : name ≠ "" := fun he => h (congrArg some he)
      rw [Namespace.trimmed, Namespace.trimmed, if_neg fun he => hname he.2]
    | child outer inner =>
      have hroot : (child (child outer inner) name).root? = (child outer inner).root? := by
        rw [root?, root?]
        cases outer.root? <;> rfl
      have hparent := ih (hroot ▸ h)
      rw [Namespace.trimmed, hparent, if_neg fun he => by cases he.1]

/-- Two top-level types are told apart only by empty names that their namespaces begin with. -/
structure Lookalike (t u : TypePath) : Prop where
  different : t ≠ u
  top : t.isTopLevel = true ∧ u.isTopLevel = true
  own : t.own = u.own
  home : t.home.trimmed = u.home.trimmed

/-- Two lookalikes both have marked fields, or both have a stub. -/
def Doubled (trees : List SourceTree) (m : Model) : Prop :=
  ∃ t u, Lookalike t u ∧
    (HasMarked m t ∧ HasMarked m u ∨ HasStub .default trees m t ∧ HasStub .default trees m u)

section

variable {s : Settings} {trees : List SourceTree} {r : Resolver} {candidates : Candidates}
  {fields : List (ResolvedField TypePath)} {stubs : List (StubGroup TypePath)}

theorem Stages.table_called (h : Stages s trees r candidates fields stubs)
    (hn : ∀ tree ∈ trees, tree.Identifiers Unseparated tree.root) :
    Called Unseparated r.model.table := by
  obtain ⟨hfault, rfl⟩ := Resolver.found_eq h.found
  refine (build_ok hfault).1.called ?_ (by decide) fun t ht => by cases ht
  rw [List.forall_mem_append, List.forall_mem_singleton]
  exact ⟨hn, Marker.identifiers_unseparated⟩

/-- **The same stem belongs to one type, or to lookalikes.** -/
theorem Stages.stemOf_eq_iff (h : Stages s trees r candidates fields stubs)
    (hn : ∀ tree ∈ trees, tree.Identifiers Unseparated tree.root) {t u : TypePath}
    (ht : t ∈ fragmentTypes fields stubs) (hu : u ∈ fragmentTypes fields stubs) :
    stemOf fields stubs t = stemOf fields stubs u ↔ t = u ∨ Lookalike t u := by
  have hall : ∀ v ∈ fragmentTypes fields stubs, v.isTopLevel = true ∧ v.All Unseparated := by
    intro v hv
    obtain ⟨htop, hdeclared⟩ := h.fragmentTypes_declared v hv
    rw [← Resolver.found_model h.found, Table.hasType_iff_mem] at hdeclared
    exact ⟨htop, h.table_called hn v hdeclared⟩
  obtain ⟨htop, htnames⟩ := hall t ht
  obtain ⟨hutop, hunames⟩ := hall u hu
  rw [stemOf, stemOf, stemAmong_eq_iff (fun v hv => ⟨(hall v hv).1, (hall v hv).2.name⟩) ht hu,
    TypePath.metadataName_eq_iff htnames.name hunames.name htop hutop,
    Namespace.display_eq_iff htnames.home hunames.home]
  constructor
  · rintro ⟨hhome, hown⟩
    by_cases he : t = u
    · exact .inl he
    · exact .inr ⟨he, ⟨htop, hutop⟩, hown, hhome⟩
  · rintro (rfl | hl)
    · exact ⟨rfl, rfl⟩
    · exact ⟨hl.home, hl.own⟩

theorem Stages.stemsApart_iff (h : Stages s trees r candidates fields stubs)
    (hn : ∀ tree ∈ trees, tree.Identifiers Unseparated tree.root) {P : TypePath → Prop}
    (hP : ∀ t, t.isTopLevel = true → P t → t ∈ fragmentTypes fields stubs) :
    StemsApart fields stubs P ↔ ¬ ∃ t u, Lookalike t u ∧ P t ∧ P u := by
  constructor
  · rintro hapart ⟨t, u, hl, ht, hu⟩
    obtain ⟨htop, hutop⟩ := hl.top
    exact hl.different (hapart t u htop hutop ht hu
      ((h.stemOf_eq_iff hn (hP t htop ht) (hP u hutop hu)).mpr (.inr hl)))
  · intro hno t u htop hutop ht hu he
    rcases (h.stemOf_eq_iff hn (hP t htop ht) (hP u hutop hu)).mp he with hsame | hl
    · exact hsame
    · exact absurd ⟨t, u, hl, ht, hu⟩ hno

end

section

variable {trees : List SourceTree} {r : Resolver} {candidates : Candidates}
  {fields : List (ResolvedField TypePath)} {stubs : List (StubGroup TypePath)}

/-- By default stubs are called neither like print methods nor like the marker class, so only
lookalikes can share a key. -/
theorem Stages.keys_nodup_iff_doubled (h : Stages .default trees r candidates fields stubs)
    (hn : ∀ tree ∈ trees, tree.Identifiers Unseparated tree.root) :
    ((allFragments .default r.model fields stubs).map Fragment.key).Nodup ↔
      ¬ Doubled trees r.model := by
  have hd : DotlessStubs .default trees r.model := by
    rintro t name _ ⟨⟩
    decide
  have hmarker : Marker.metadataName ∉ methodKeys fields stubs ++ stubKeys fields stubs :=
    fun hm => absurd ((h.marker_mem_keys hd).mp hm).1 (by decide)
  have hdisjoint : List.Disjoint (methodKeys fields stubs) (stubKeys fields stubs) :=
    fun key hm hs => absurd (h.shared_key hd hm hs).1 (by decide)
  have hmethods := h.stemsApart_iff hn fun t htop ht => h.mem_fragmentTypes htop (.inl ht)
  have hstubs := h.stemsApart_iff hn fun t htop ht => h.mem_fragmentTypes htop (.inr ht)
  rw [allFragments_keys, List.nodup_cons, List.nodup_append', h.methodKeys_nodup_iff,
    h.stubKeys_nodup_iff, hmethods, hstubs]
  constructor
  · rintro ⟨_, hm, hs, _⟩ ⟨t, u, hl, hboth | hboth⟩
    · exact hm ⟨t, u, hl, hboth⟩
    · exact hs ⟨t, u, hl, hboth⟩
  · intro hno
    refine ⟨hmarker, ?_, ?_, hdisjoint⟩
    · rintro ⟨t, u, hl, hboth⟩
      exact hno ⟨t, u, hl, .inl hboth⟩
    · rintro ⟨t, u, hl, hboth⟩
      exact hno ⟨t, u, hl, .inr hboth⟩

/-- What a pass registers: the marker class, and one key per type for its print methods and for its
stub. -/
theorem Stages.mem_default_keys (h : Stages .default trees r candidates fields stubs)
    (key : String) :
    key ∈ (allFragments .default r.model fields stubs).map Fragment.key ↔
      key = Marker.metadataName ∨ ∃ t, t.isTopLevel = true ∧
        (HasMarked r.model t ∧ key = fragmentKey (stemOf fields stubs t) "Printables" ∨
          HasStub .default trees r.model t ∧
            key = fragmentKey (stemOf fields stubs t) "PrintAllFields") := by
  have hname : ∀ name, Settings.default.stubName.string? = some name ↔ name = "PrintAllFields" :=
    fun name => Option.some_inj.trans eq_comm
  rw [allFragments_keys, List.mem_cons, List.mem_append, h.mem_methodKeys, h.mem_stubKeys]
  refine or_congr_right ?_
  constructor
  · rintro (⟨t, htop, hm, he⟩ | ⟨t, name, htop, hs, hstub, he⟩)
    · exact ⟨t, htop, .inl ⟨hm, he⟩⟩
    · exact ⟨t, htop, .inr ⟨hs, (hname name).mp hstub ▸ he⟩⟩
  · rintro ⟨t, htop, ⟨hm, he⟩ | ⟨hs, he⟩⟩
    · exact .inl ⟨t, htop, hm, he⟩
    · exact .inr ⟨t, _, htop, hs, (hname _).mpr rfl, he⟩

theorem Stages.stops_doubled (h : Stages .default trees r candidates fields stubs)
    (hn : ∀ tree ∈ trees, tree.Identifiers Unseparated tree.root)
    (hdoubled : Doubled trees r.model) (before : Trace) :
    ∃ key after, generate .default trees before = .error (.duplicateKey key) after := by
  have hgives := generate_gives .default trees
  obtain ⟨key, hstop⟩ := h.stops fun hkeys => (h.keys_nodup_iff_doubled hn).mp hkeys hdoubled
  rw [hstop] at hgives
  obtain ⟨after, hrun⟩ := hgives before trivial
  exact ⟨key, after, hrun⟩

/-- Where no namespace begins with an empty name, types are told apart. -/
theorem Stages.not_doubled (h : Stages .default trees r candidates fields stubs)
    (ho : Outside "" r.model.table) : ¬ Doubled trees r.model := by
  rintro ⟨t, u, hl, hboth⟩
  have hstored : Stored r.model.table := by
    obtain ⟨hfault, rfl⟩ := Resolver.found_eq h.found
    exact (build_ok hfault).1.stored .empty
  have htrimmed : ∀ v ∈ fragmentTypes fields stubs, v.home.trimmed = v.home := by
    intro v hv
    have hdeclared := (h.fragmentTypes_declared v hv).2
    rw [← Resolver.found_model h.found] at hdeclared
    exact Namespace.trimmed_of_root (ho.type hstored hdeclared)
  obtain ⟨htop, hutop⟩ := hl.top
  have hmem : t ∈ fragmentTypes fields stubs ∧ u ∈ fragmentTypes fields stubs := by
    rcases hboth with ⟨ht, hu⟩ | ⟨ht, hu⟩
    · exact ⟨h.mem_fragmentTypes htop (.inl ht), h.mem_fragmentTypes hutop (.inl hu)⟩
    · exact ⟨h.mem_fragmentTypes htop (.inr ht), h.mem_fragmentTypes hutop (.inr hu)⟩
  -- Nothing is trimmed, so lookalikes are the same type.
  have hhome := hl.home
  rw [htrimmed t hmem.1, htrimmed u hmem.2] at hhome
  exact hl.different (TypePath.eq_of_top htop hutop hhome hl.own)

end

/-- **A pass over erroneous trees returns unless types are doubled.** With the default settings a
pass over well-formed trees, in which names may be missing, returns the fragments of all its types
unless lookalikes both have print methods or both have a stub. In that case it stops at their
common key. There are no lookalikes if no namespace begins with an empty name. -/
theorem lenient_pass_returns_unless_doubled (trees : List SourceTree)
    (hw : ∀ tree ∈ trees, tree.WellFormed)
    (hn : ∀ tree ∈ trees, tree.Identifiers Unseparated tree.root) (before : Trace) :
    (¬ Doubled trees (Resolver.compiled trees).model →
      ∃ g after, generate .default trees before = .ok g after ∧ g.keys.Nodup ∧
        ∃ stem : TypePath → String, (∀ t, stem t = t.name ∨ stem t = t.metadataName) ∧
          ∀ key, key ∈ g.keys ↔ key = Marker.metadataName ∨ ∃ t, t.isTopLevel = true ∧
            (HasMarked (Resolver.compiled trees).model t ∧
                key = fragmentKey (stem t) "Printables" ∨
              HasStub .default trees (Resolver.compiled trees).model t ∧
                key = fragmentKey (stem t) "PrintAllFields")) ∧
    (Doubled trees (Resolver.compiled trees).model →
      ∃ key after, generate .default trees before = .error (.duplicateKey key) after) ∧
    (Outside "" (Resolver.compiled trees).model.table →
      ¬ Doubled trees (Resolver.compiled trees).model) := by
  obtain ⟨r, candidates, fields, stubs, h⟩ := stages_wellFormed .default hw
  rw [← Resolver.found_model h.found]
  refine ⟨fun hno => ?_, fun hdoubled => h.stops_doubled hn hdoubled before, h.not_doubled⟩
  have hkeys := (h.keys_nodup_iff_doubled hn).mpr hno
  obtain ⟨g, after, hrun, hfragments⟩ := h.runs hkeys before
  refine ⟨g, after, hrun, ?_⟩
  rw [Generated.keys, hfragments]
  refine ⟨hkeys, stemOf fields stubs, fun t => ?_, h.mem_default_keys⟩
  rw [stemOf, stemAmong]
  split
  · exact .inl rfl
  · exact .inr rfl

namespace Sample

open Marker (node identifier)

/-- A name, which is missing if it is empty. -/
def named (start : Nat) (name : String) : Node :=
  .mk (.name .identifier) true name.isEmpty start (start + name.length) (some .name) []

/-- A partial class with one marked field. -/
def markedClass (start : Nat) (name field : String) : Node :=
  let body := start + 15 + name.length
  let stop := body + 37 + field.length
  node (.typeDeclaration .classType) start stop none [
    node .modifier start (start + 7) none [],
    named (start + 14) name,
    node .declarationList body stop (some (.other "body")) [
      node .fieldDeclaration (body + 2) (stop - 2) none [
        node .attributeList (body + 2) (body + 29) none [
          node .attributeUse (body + 3) (body + 28) none [
            node (.name .qualified) (body + 3) (body + 28) (some .name) [
              identifier (body + 3) (body + 18) (some .qualifier),
              identifier (body + 19) (body + 28) (some .name)]]],
        node .variableDeclaration (body + 30) (stop - 3) none [
          node (.other "predefined_type") (body + 30) (body + 33) (some .type) [],
          node .variableDeclarator (body + 34) (stop - 3) none [named (body + 34) field]]]]]

/-- A namespace in which the names of a class, a namespace and a field are missing. -/
def unnamed : SourceTree :=
  ⟨.source 0, "unnamed.cs", "namespace N\x7b partial class  \x7b ".toList ++
    "[PrintableFields.Printable] int x; \x7d namespace \x7b partial class C \x7b ".toList ++
    "[PrintableFields.Printable] int y; \x7d \x7d partial class C \x7b ".toList ++
    "[PrintableFields.Printable] int ; \x7d \x7d".toList, true,
    node (.other "compilation_unit") 0 191 none [
      node .namespaceDeclaration 0 191 none [
        named 10 "N",
        node .declarationList 11 191 (some (.other "body")) [
          markedClass 13 "" "x",
          node .namespaceDeclaration 67 135 none [
            named 77 "",
            node .declarationList 77 135 (some (.other "body")) [markedClass 79 "C" "y"]],
          markedClass 136 "C" ""]]]⟩

/-- A class, and one of the same name in a namespace whose name is missing. -/
def doubled : SourceTree :=
  ⟨.source 0, "doubled.cs", "partial class C \x7b ".toList ++
    "[PrintableFields.Printable] int a; \x7d namespace \x7b partial class C \x7b ".toList ++
    "[PrintableFields.Printable] int b; \x7d \x7d".toList, true,
    node (.other "compilation_unit") 0 123 none [
      markedClass 0 "C" "a",
      node .namespaceDeclaration 55 123 none [
        named 65 "",
        node .declarationList 65 123 (some (.other "body")) [markedClass 67 "C" "b"]]]⟩

end Sample

theorem lenient_pass_of_sample :
    Sample.unnamed.WellFormed ∧ Sample.unnamed.Identifiers Unseparated Sample.unnamed.root ∧
      (∃ g after, generate .default [Sample.unnamed] [] = .ok g after ∧ g.keys.Nodup) ∧
      (generated .default [Sample.unnamed]).toOption.map Generated.keys =
        some [Marker.metadataName, ".Printables", "N..C.Printables", "N.C.Printables"] := by
  have hw : Sample.unnamed.WellFormed := by decide +kernel
  have hn : Sample.unnamed.Identifiers Unseparated Sample.unnamed.root := by decide +kernel
  obtain ⟨hreturns, _, hnone⟩ := lenient_pass_returns_unless_doubled [Sample.unnamed]
    (List.forall_mem_singleton.mpr hw) (List.forall_mem_singleton.mpr hn) []
  have houtside : Outside "" (Resolver.compiled [Sample.unnamed]).model.table := by
    rw [Resolver.compiled, build_table, Marker.tree_parts, Outside]
    decide +kernel
  obtain ⟨g, after, hrun, hkeys, _⟩ := hreturns (hnone houtside)
  refine ⟨hw, hn, ⟨g, after, hrun, hkeys⟩, ?_⟩
  rw [generated, Resolver.found, Resolver.compiled, Marker.tree_parts]
  decide +kernel

/-- **A namespace whose name is missing can stop a pass:** its class has the key of the class
outside. -/
theorem missing_namespace_name_stops_pass :
    Sample.doubled.WellFormed ∧ Sample.doubled.Identifiers Unseparated Sample.doubled.root ∧
      ∃ key after, generate .default [Sample.doubled] [] = .error (.duplicateKey key) after := by
  have hw : Sample.doubled.WellFormed := by decide +kernel
  have hn : Sample.doubled.Identifiers Unseparated Sample.doubled.root := by decide +kernel
  obtain ⟨r, candidates, fields, stubs, h⟩ :=
    stages_wellFormed .default (List.forall_mem_singleton.mpr hw)
  have hboth : HasMarked r.model (.top .global ⟨"C", 0⟩) ∧
      HasMarked r.model (.top (.child .global "") ⟨"C", 0⟩) := by
    rw [Resolver.found_model h.found, HasMarked, HasMarked, Resolver.compiled, Marker.tree_parts]
    decide +kernel
  have hlookalike : Lookalike (.top .global ⟨"C", 0⟩) (.top (.child .global "") ⟨"C", 0⟩) :=
    ⟨by decide, ⟨rfl, rfl⟩, rfl, by decide⟩
  exact ⟨hw, hn, h.stops_doubled (List.forall_mem_singleton.mpr hn)
    ⟨_, _, hlookalike, .inl hboth⟩ []⟩

end PrintGen
