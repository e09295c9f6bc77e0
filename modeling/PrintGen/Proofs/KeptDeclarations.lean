import PrintGen.Proofs.Repeats
import PrintGen.Proofs.Stubs
import PrintGen.Proofs.Visits

/-!
# Adding trees keeps what was declared

Further trees are declared from the table of the trees before them. Whatever they declare, and also
if one of them stops the pass, they only add records, so types and fields continue the lists from
before. The index of nodes takes another argument, since a tree that is given again is declared
again: all its nodes get the types that they have already.
-/

namespace PrintGen

namespace Symbols

open Syntax

/-! ## Declaring a tree once more -/

theorem exists_of_mapM {ε α β : Type} {f : α → Except ε β} {as : List α} {bs : List β}
    (h : as.mapM f = .ok bs) : ∀ a ∈ as, ∃ b, f a = .ok b := by
  have hall := mapM_ok_iff.mp h
  clear h
  induction hall with
  | nil => simp
  | cons hb _ ih => exact List.forall_mem_cons.mpr ⟨⟨_, hb⟩, ih⟩

/-- What a member stores can be read in every scope or in none. -/
theorem storedFields_rescoped {tree : SourceTree} {scope : Scope} {owner : TypePath}
    {kind : Option TypeKind} {node : Node} {fields : List FieldEntry}
    (h : storedFields tree scope owner kind node = .ok fields) (other : Scope) :
    ∃ fields', storedFields tree other owner kind node = .ok fields' := by
  cases hk : node.kind with
  | fieldDeclaration =>
    simp only [storedFields, hk] at h ⊢
    obtain ⟨modifiers, hm, hread⟩ := except_bind_ok.mp h
    rw [hm, except_ok_bind]
    refine mapM_total fun declarator hd => ?_
    obtain ⟨field, hfield⟩ := exists_of_mapM hread declarator hd
    obtain ⟨name, hn, _⟩ := except_bind_ok.mp hfield
    exact ⟨_, by rw [plainField, hn, except_ok_bind]; rfl⟩
  | _ =>
    simp only [storedFields, hk] at h ⊢
    exact ⟨fields, h⟩

/-- **A tree that was declared can be declared once more in any later table.** -/
theorem Declares.revisits {tree : SourceTree} {scope : Scope} {within : Option TypePath}
    {nodes : List Node} {table last : Table} (h : Declares tree scope within nodes table last)
    (hw : ∀ t, within = some t → table.hasType t = true) :
    ∀ {later : Scope} {other : Table}, later.home = scope.home → Grows last other →
      ∃ end', Declares tree later within nodes other end' := by
  induction h with
  | nil => exact fun _ _ => ⟨_, .nil⟩
  | @directive scope within node rest table last d hk hd hr ih =>
    intro later other hhome hg
    have hrest := ih (fun t ht => (Grows.withDirective table tree node scope d).hasType (hw t ht))
      hhome (hg.trans (Grows.withDirective other tree node later d))
    obtain ⟨end', hend⟩ := hrest
    exact ⟨end', .directive hk hd hend⟩
  | @block scope within node rest table mid last segments hk hn hb hr ihb ihr =>
    intro later other hhome hg
    have hinner : (Table.withScope tree segments later other).1.home =
        (Table.withScope tree segments scope table).1.home := by
      rw [withScope_home, withScope_home, hhome]
    obtain ⟨mid', hmid⟩ := ihb (by simp) hinner
      (hr.grows.trans (hg.trans (Grows.withScope other tree later segments)))
    have hmore : Grows other mid' := (Grows.withScope other tree later segments).trans hmid.grows
    have hkept : Grows table mid := (Grows.withScope table tree scope segments).trans hb.grows
    obtain ⟨end', hend⟩ := ihr (fun t ht => hkept.hasType (hw t ht)) hhome (hg.trans hmore)
    exact ⟨end', .block hk hn hmid hend⟩
  | @file scope within node rest table mid last segments hk hn hb hr ihb ihr =>
    intro later other hhome hg
    have hinner : (Table.withScope tree segments later other).1.home =
        (Table.withScope tree segments scope table).1.home := by
      rw [withScope_home, withScope_home, hhome]
    obtain ⟨mid', hmid⟩ := ihb (by simp) hinner
      (hr.grows.trans (hg.trans (Grows.withScope other tree later segments)))
    have hmore : Grows other mid' := (Grows.withScope other tree later segments).trans hmid.grows
    have hkept : Grows table mid := (Grows.withScope table tree scope segments).trans hb.grows
    obtain ⟨end', hend⟩ := ihr (fun t ht => hkept.hasType (hw t ht)) hinner (hg.trans hmore)
    exact ⟨end', .file hk hn hmid hend⟩
  | @storage scope owner node rest table last fields hk hf hr ih =>
    intro later other hhome hg
    -- The type around the member has its kind already, and keeps it.
    obtain ⟨kind, hkind⟩ := (Table.hasType_iff table owner).mp (hw owner rfl)
    have hsame : other.kindOf? owner = table.kindOf? owner := by
      have hgrows : Grows table other :=
        (Grows.withFields table fields).trans (hr.grows.trans hg)
      rw [hkind, hgrows.kinds owner kind hkind]
    obtain ⟨fields', hf'⟩ := storedFields_rescoped hf later
    rw [← hsame] at hf'
    obtain ⟨end', hend⟩ := ih (fun t ht => (Grows.withFields table fields).hasType (hw t ht)) hhome
      (hg.trans (Grows.withFields other fields'))
    exact ⟨end', .storage hk hf' hend⟩
  | @type scope within node rest table mid last kind t parameters hk ht hb hr ihb ihr =>
    intro later other hhome hg
    have hread : typeOf tree node later within = .ok (t, parameters) := by
      obtain ⟨name, hname, hparameters, rfl⟩ := typeOf_ok ht
      rw [typeOf, hname, except_ok_bind, hparameters, except_ok_bind, pathOf_eq, hhome]
      rfl
    have hdeclared := Table.withType_hasType table tree node kind scope t parameters
    have hgrown : Grows mid (other.withType tree node kind later t parameters) :=
      hr.grows.trans (hg.trans (Grows.withType other tree node kind later t parameters))
    obtain ⟨mid', hmid⟩ := ihb (fun u hu => by cases hu; exact hdeclared) hhome hgrown
    rw [← openMembers_of_grows (hb.grows.trans hgrown) hdeclared] at hmid
    have hmore : Grows other mid' :=
      (Grows.withType other tree node kind later t parameters).trans hmid.grows
    have hkept : Grows table mid :=
      (Grows.withType table tree node kind scope t parameters).trans hb.grows
    obtain ⟨end', hend⟩ := ihr (fun u hu => hkept.hasType (hw u hu)) hhome (hg.trans hmore)
    exact ⟨end', .type hk hread hmid hend⟩
  | @wrapper scope within node rest table mid last w hk hb hr ihb ihr =>
    intro later other hhome hg
    obtain ⟨mid', hmid⟩ := ihb hw hhome (hr.grows.trans hg)
    obtain ⟨end', hend⟩ := ihr (fun t ht => hb.grows.hasType (hw t ht)) hhome
      (hg.trans hmid.grows)
    exact ⟨end', .wrapper hk hmid hend⟩
  | @skip scope within node rest table last hk hs hr ih =>
    intro later other hhome hg
    obtain ⟨end', hend⟩ := ih hw hhome hg
    exact ⟨end', .skip hk hs hend⟩

theorem DeclaresTree.revisits {tree : SourceTree} {table last other : Table}
    (h : DeclaresTree tree table last) (hg : Grows last other) :
    ∃ end', DeclaresTree tree other end' :=
  Declares.revisits h (by simp) rfl (hg.trans (Grows.withFrame other tree .global true))

/-! ## The index of nodes -/

/-- The index with further declarations. -/
def indexed (known : List (NodeKey × TypePath)) (ds : List Declaration) :
    List (NodeKey × TypePath) :=
  ds.foldl (fun known d => Table.putNodeType d.site.key d.path known) known

theorem Table.after_index (table : Table) (es : List Event) :
    (table.after es).nodeTypes = indexed table.nodeTypes (declarationsIn es) := by
  have hfold := Table.after_foldl Table.nodeTypes (fun _ => True)
    (fun known d => Table.putNodeType d.site.key d.path known)
    (fun table e he => (table.record_other he).2.2)
    (fun table d => by rw [if_pos trivial, Table.record, Table.withType_eq]; rfl) table es
  rw [hfold]
  simp [indexed]

/-- The type that an index has for a key. -/
def indexedType? (known : List (NodeKey × TypePath)) (key : NodeKey) : Option TypePath :=
  (known.find? fun entry => entry.1 = key).map Prod.snd

section

variable (key : NodeKey) (t : TypePath) (known more : List (NodeKey × TypePath))

theorem putNodeType_append_of_known (h : (indexedType? known key).isSome = true) :
    Table.putNodeType key t (known ++ more) = Table.putNodeType key t known ++ more := by
  induction known with
  | nil => cases h
  | cons entry rest ih =>
    obtain ⟨k, u⟩ := entry
    simp only [List.cons_append, Table.putNodeType]
    by_cases hk : k = key
    · rw [if_pos hk, if_pos hk, List.cons_append]
    · have hrest : (indexedType? rest key).isSome = true := by
        simpa [indexedType?, hk] using h
      rw [if_neg hk, if_neg hk, ih hrest, List.cons_append]

theorem putNodeType_append_of_unknown (h : indexedType? known key = none) :
    Table.putNodeType key t (known ++ more) = known ++ Table.putNodeType key t more := by
  induction known with
  | nil => rfl
  | cons entry rest ih =>
    obtain ⟨k, u⟩ := entry
    by_cases hk : k = key
    · simp [indexedType?, hk] at h
    · have hrest : indexedType? rest key = none := by
        simpa [indexedType?, hk] using h
      simp only [List.cons_append, Table.putNodeType]
      rw [if_neg hk, ih hrest]

/-- Recording what is known changes nothing. -/
theorem putNodeType_same (h : indexedType? known key = some t) :
    Table.putNodeType key t known = known := by
  induction known with
  | nil => cases h
  | cons entry rest ih =>
    obtain ⟨k, u⟩ := entry
    rw [Table.putNodeType]
    by_cases hk : k = key
    · have hu : u = t := by simpa [indexedType?, hk] using h
      rw [if_pos hk, hu]
    · have hrest : indexedType? rest key = some t := by
        simpa [indexedType?, hk] using h
      rw [if_neg hk, ih hrest]

/-- A record hides the one that it replaces. -/
theorem putNodeType_twice (u : TypePath) :
    Table.putNodeType key t (Table.putNodeType key u known) = Table.putNodeType key t known := by
  induction known with
  | nil => simp [Table.putNodeType]
  | cons entry rest ih =>
    obtain ⟨k, v⟩ := entry
    by_cases hk : k = key
    · simp [Table.putNodeType, hk]
    · simp [Table.putNodeType, hk, ih]

theorem putNodeType_comm {other : NodeKey} (hne : other ≠ key) (u : TypePath)
    (h : (indexedType? known key).isSome = true) :
    Table.putNodeType other u (Table.putNodeType key t known) =
      Table.putNodeType key t (Table.putNodeType other u known) := by
  induction known with
  | nil => cases h
  | cons entry rest ih =>
    obtain ⟨k, v⟩ := entry
    by_cases hk : k = key
    · have hko : ¬ key = other := fun he => hne he.symm
      simp [Table.putNodeType, hk, hko]
    · have hrest : (indexedType? rest key).isSome = true := by
        simpa [indexedType?, hk] using h
      by_cases ho : k = other
      · simp [Table.putNodeType, ho, hne]
      · simp [Table.putNodeType, hk, ho, ih hrest]

end

theorem indexedType?_put (key other : NodeKey) (t : TypePath)
    (known : List (NodeKey × TypePath)) :
    indexedType? (Table.putNodeType key t known) other =
      if other = key then some t else indexedType? known other :=
  find?_putNodeType key other t known

/-- What a node is recorded with does not matter if it is recorded again. -/
theorem indexed_put {key : NodeKey} {ds : List Declaration} (hd : ∃ d ∈ ds, d.site.key = key)
    (t : TypePath) {known : List (NodeKey × TypePath)}
    (hk : (indexedType? known key).isSome = true) :
    indexed (Table.putNodeType key t known) ds = indexed known ds := by
  induction ds generalizing known with
  | nil => simp at hd
  | cons d rest ih =>
    rw [indexed, indexed, List.foldl_cons, List.foldl_cons]
    by_cases he : d.site.key = key
    · rw [he, putNodeType_twice]
    · rw [putNodeType_comm _ _ _ he _ hk]
      refine ih ?_ ?_
      · obtain ⟨d', hmem, hkey⟩ := hd
        rcases List.mem_cons.mp hmem with rfl | hrest
        · exact absurd hkey he
        · exact ⟨d', hrest, hkey⟩
      · rw [indexedType?_put]
        split
        · rfl
        · exact hk

/-- **Declarations that an index agrees with in the end leave it as it is.** -/
theorem indexed_known {ds : List Declaration} {known : List (NodeKey × TypePath)}
    (h : ∀ key d, (ds.filter fun d => d.site.key = key).getLast? = some d →
      indexedType? known key = some d.path) : indexed known ds = known := by
  induction ds with
  | nil => rfl
  | cons d rest ih =>
    have hrest : indexed known rest = known := by
      refine ih fun key e he => h key e ?_
      rw [List.filter_cons]
      split
      · rw [List.getLast?_cons, he]
        rfl
      · exact he
    rw [indexed, List.foldl_cons]
    by_cases hd : ∃ e ∈ rest, e.site.key = d.site.key
    · have hsome : (indexedType? known d.site.key).isSome = true := by
        obtain ⟨e, he, hkey⟩ := hd
        have hne : (d :: rest).filter (fun e => e.site.key = d.site.key) ≠ [] := by simp
        obtain ⟨last, hlast⟩ := Option.ne_none_iff_exists'.mp (List.getLast?_eq_none_iff.not.mpr hne)
        rw [h _ last hlast]
        rfl
      exact (indexed_put hd d.path hsome).trans hrest
    · have hnone : rest.filter (fun e => e.site.key = d.site.key) = [] := by
        simpa using hd
      have hsame : indexedType? known d.site.key = some d.path :=
        h d.site.key d (by rw [List.filter_cons_of_pos (by simp), hnone]; rfl)
      rw [putNodeType_same _ _ _ hsame]
      exact hrest

theorem indexed_append_of_known {ds : List Declaration} {known : List (NodeKey × TypePath)}
    (h : ∀ d ∈ ds, (indexedType? known d.site.key).isSome = true)
    (more : List (NodeKey × TypePath)) : indexed (known ++ more) ds = indexed known ds ++ more := by
  induction ds generalizing known with
  | nil => rfl
  | cons d rest ih =>
    obtain ⟨hd, hrest⟩ := List.forall_mem_cons.mp h
    rw [indexed, List.foldl_cons, putNodeType_append_of_known _ _ _ _ hd]
    refine ih fun e he => ?_
    rw [indexedType?_put]
    split
    · rfl
    · exact hrest e he

theorem indexed_append_of_unknown {ds : List Declaration} {known : List (NodeKey × TypePath)}
    (h : ∀ d ∈ ds, indexedType? known d.site.key = none) (more : List (NodeKey × TypePath)) :
    indexed (known ++ more) ds = known ++ indexed more ds := by
  induction ds generalizing more with
  | nil => rfl
  | cons d rest ih =>
    obtain ⟨hd, hrest⟩ := List.forall_mem_cons.mp h
    rw [indexed, List.foldl_cons, putNodeType_append_of_unknown _ _ _ _ hd]
    exact ih hrest _

/-! ## Trees one after the other -/

theorem Grows.after (table : Table) (es : List Event) : Grows table (table.after es) := by
  constructor
  · intro t kind hk
    rw [Table.after_kindOf?, hk]
    rfl
  · intro n hn
    exact (Table.after_hasNamespace table es n).mpr (.inl hn)

/-- The declarations that trees make stand in them. -/
theorem DeclaresTrees.records {trees : List SourceTree} {table last : Table}
    (h : DeclaresTrees trees table last) :
    ∃ es, last = table.after es ∧ ∀ d ∈ declarationsIn es, d.tree ∈ trees := by
  obtain ⟨es, hes⟩ := h.walk (Grows.refl last)
  refine ⟨es, hes.result, fun d hd => ?_⟩
  obtain ⟨tree, htree, hsite⟩ :=
    List.mem_flatMap.mp (hes.order.subset (List.mem_map_of_mem (f := Declaration.site) hd))
  obtain ⟨node, _, he⟩ := List.mem_map.mp hsite
  have hsame : tree = d.tree := congrArg Site.tree he
  exact hsame ▸ htree

/-- A node of a tree has the type of its last visit. -/
theorem DeclaresTrees.lastVisit {trees : List SourceTree} {table last final : Table}
    (h : DeclaresTrees trees table last) (hg : Grows last final) {tree : SourceTree}
    (hmem : tree ∈ trees) (hids : ∀ a ∈ trees, a.id = tree.id → a = tree) :
    ∃ visited, visits final tree .global none tree.root.children = .ok visited ∧
      ∀ key v, (visited.filter fun v => v.site.key = key).getLast? = some v →
        key.tree = tree.id ∧ last.typeOfNode? key = some v.type := by
  induction h with
  | nil => cases hmem
  | @cons first rest table mid last ht hr ih =>
    by_cases hlater : tree ∈ rest
    · exact ih hg hlater fun a ha => hids a (List.mem_cons_of_mem _ ha)
    · obtain rfl : tree = first := (List.mem_cons.mp hmem).resolve_right hlater
      obtain ⟨es, hes⟩ := ht.walk (hr.grows.trans hg)
      obtain ⟨later, hlast, hfrom⟩ := hr.records
      refine ⟨_, hes.visited, fun key v hv => ?_⟩
      rw [List.filter_map, List.getLast?_map, Option.map_eq_some_iff] at hv
      obtain ⟨d, hd, rfl⟩ := hv
      obtain ⟨hin, hkey⟩ := List.mem_filter.mp (List.mem_of_getLast? hd)
      have hsite : d.site.key = key := of_decide_eq_true hkey
      have htree : d.tree = tree := by
        have hs := hes.order.subset (List.mem_map_of_mem (f := Declaration.site) hin)
        obtain ⟨node, _, he⟩ := List.mem_map.mp (List.mem_of_mem_filter hs)
        exact (congrArg Site.tree he).symm
      have hid : key.tree = tree.id := by
        rw [← hsite, ← htree]
        rfl
      -- No later tree has a node with this key.
      have hnone : declarationsAt later key = [] := by
        rw [declarationsAt, List.filter_eq_nil_iff]
        intro e he hkey'
        have heid : e.tree.id = tree.id := by
          rw [← hid, ← of_decide_eq_true hkey']
          rfl
        have htree' := hids e.tree (List.mem_cons_of_mem _ (hfrom e he)) heid
        exact hlater (htree' ▸ hfrom e he)
      have hat : (declarationsAt es key).getLast? = some d := hd
      refine ⟨hid, ?_⟩
      rw [hlast, Table.after_typeOfNode?, hnone, hes.result, Table.after_typeOfNode?, hat,
        hes.typed d hin]
      rfl

/-- A table goes on from another one: it comes from it by records, and they leave the types of the
nodes as they are. -/
structure Continues (table last : Table) : Prop where
  records : ∃ es, last = table.after es
  index : table.nodeTypes <+: last.nodeTypes

theorem Continues.refl (table : Table) : Continues table table :=
  ⟨⟨[], rfl⟩, List.prefix_rfl⟩

section

variable {trees : List SourceTree} {table mid : Table}

/-- A tree that was declared before changes the type of no node. -/
theorem Continues.again (h : DeclaresTrees trees .empty table) {tree : SourceTree}
    (hmem : tree ∈ trees) (hids : ∀ a ∈ trees, a.id = tree.id → a = tree)
    (hm : Continues table mid) :
    ∃ last, DeclaresTree tree mid last ∧ Continues table last := by
  obtain ⟨before, hbefore⟩ := hm.records
  obtain ⟨more, hmore⟩ := hm.index
  have hgm : Grows table mid := hbefore ▸ Grows.after table before
  obtain ⟨front, back, rfl⟩ := List.append_of_mem hmem
  obtain ⟨start, _, hrest⟩ := h.split
  cases hrest with
  | cons ht hr =>
    obtain ⟨last, hlast⟩ := ht.revisits (hr.grows.trans hgm)
    obtain ⟨es, hes⟩ := hlast.walk (Grows.refl last)
    obtain ⟨visited, hvisited, htypes⟩ :=
      h.lastVisit (hgm.trans (DeclaresTrees.cons hlast .nil).grows) hmem hids
    obtain rfl := Except.ok.inj (hvisited.symm.trans hes.visited)
    -- In the end each node has the type that it had before.
    have hknown : ∀ key d, ((declarationsIn es).filter fun d => d.site.key = key).getLast? =
        some d → indexedType? table.nodeTypes key = some d.path := by
      intro key d hd
      have hv := (htypes key d.visit (by
        rw [List.filter_map, List.getLast?_map]
        exact congrArg (Option.map Declaration.visit) hd)).2
      rwa [hes.typed d (List.mem_of_mem_filter (List.mem_of_getLast? hd))] at hv
    have hkeys : ∀ d ∈ declarationsIn es,
        (indexedType? table.nodeTypes d.site.key).isSome = true := by
      intro d hd
      have hne : (declarationsIn es).filter (fun e => e.site.key = d.site.key) ≠ [] :=
        List.ne_nil_of_mem (List.mem_filter.mpr ⟨hd, by simp⟩)
      obtain ⟨e, he⟩ := Option.ne_none_iff_exists'.mp (List.getLast?_eq_none_iff.not.mpr hne)
      rw [hknown _ e he]
      rfl
    refine ⟨last, hlast, ⟨before ++ es, ?_⟩, more, ?_⟩
    · rw [hes.result, hbefore, Table.after_append]
    · rw [hes.result, Table.after_index, ← hmore, indexed_append_of_known hkeys,
        indexed_known hknown]

/-- **However declaring one more tree ends, the table goes on from the one before.** -/
theorem declareTree_continues (h : DeclaresTrees trees .empty table) {tree : SourceTree}
    (hids : ∀ a ∈ trees, a.id = tree.id → a = tree) (hm : Continues table mid) :
    Continues table (stateOf (declareTree tree mid)) := by
  by_cases hmem : tree ∈ trees
  · obtain ⟨last, hlast, hcontinues⟩ := hm.again h hmem hids
    rw [declareTree_iff.mpr hlast]
    exact hcontinues
  · obtain ⟨before, hbefore⟩ := hm.records
    obtain ⟨more, hmore⟩ := hm.index
    obtain ⟨es, hes⟩ := declareTree_repeats tree mid
    obtain ⟨all, hall, htrees⟩ := h.records
    have hunknown : ∀ d ∈ declarationsIn es,
        indexedType? table.nodeTypes d.site.key = none := by
      intro d hd
      change table.typeOfNode? d.site.key = none
      have hnone : declarationsAt all d.site.key = [] := by
        rw [declarationsAt, List.filter_eq_nil_iff]
        intro e he hkey
        have hid : e.tree.id = tree.id := by
          rw [← hes.sent d hd]
          exact congrArg NodeKey.tree (of_decide_eq_true hkey)
        exact hmem (hids e.tree (htrees e he) hid ▸ htrees e he)
      rw [hall, Table.after_typeOfNode?, hnone]
      rfl
    refine ⟨⟨before ++ es, ?_⟩, indexed more (declarationsIn es), ?_⟩
    · rw [hes.result, hbefore, Table.after_append]
    · rw [hes.result, Table.after_index, ← hmore, indexed_append_of_unknown hunknown]

theorem declareTrees_continues (h : DeclaresTrees trees .empty table) {added : List SourceTree}
    (hids : ∀ a ∈ trees, ∀ b ∈ added, a.id = b.id → a = b) (hm : Continues table mid) :
    Continues table (stateOf (declareTrees added mid)) := by
  induction added generalizing mid with
  | nil => exact hm
  | cons tree rest ih =>
    have hnext := declareTree_continues h (fun a ha => hids a ha tree (by simp)) hm
    have hstep : declareTrees (tree :: rest) mid =
        (declareTree tree >>= fun _ => declareTrees rest) mid := rfl
    rw [hstep]
    simp only [Bind.bind, EStateM.bind]
    cases hr : declareTree tree mid with
    | error e next =>
      rw [hr] at hnext
      exact hnext
    | ok u next =>
      rw [hr] at hnext
      exact ih (fun a ha b hb => hids a ha b (by simp [hb])) hnext

end

/-! ## What is kept -/

/-- All types of one table are types of the other, first and in the same order. A type is given by
its path, which also says whether it is nested. Each type has the same kind and the same type
parameters there, and its declarations and fields come first. -/
structure Preserves (old new : Table) : Prop where
  types : old.allTypes <+: new.allTypes
  entries : ∀ t ∈ old.allTypes, ∃ e e', old.entryOf? t = some e ∧ new.entryOf? t = some e' ∧
    e'.kind = e.kind ∧ e'.parameters = e.parameters ∧ e.declarations <+: e'.declarations
  fields : ∀ t, old.fieldsOf t <+: new.fieldsOf t

theorem declaredTable_eq (trees : List SourceTree) :
    declaredTable trees = stateOf (declareTrees trees .empty) := by
  rw [declaredTable]
  cases declareTrees trees .empty <;> rfl

/-- However the pass ends, its table is made of records. -/
theorem declaredTable_records (trees : List SourceTree) :
    ∃ es, declaredTable trees = Table.empty.after es := by
  obtain ⟨es, hes, _⟩ := declareTrees_repeats trees .empty
  exact ⟨es, by rw [declaredTable_eq, hes]⟩

/-- Every type that a node stands for has an entry. -/
theorem hasType_of_mem_allTypes {es : List Event} {t : TypePath}
    (h : t ∈ (Table.empty.after es).allTypes) : (Table.empty.after es).hasType t = true := by
  have hentries : ∀ (ds : List Declaration) (known : List (NodeKey × TypePath)),
      ∀ entry ∈ indexed known ds, entry ∈ known ∨ entry.2 ∈ ds.map Declaration.path := by
    intro ds
    induction ds with
    | nil => exact fun known entry hmem => .inl hmem
    | cons d rest ih =>
      intro known entry hmem
      rcases ih _ entry hmem with hknown | hrest
      · rcases mem_putNodeType hknown with rfl | hold
        · exact .inr (by simp)
        · exact .inl hold
      · exact .inr (List.mem_cons_of_mem _ hrest)
  rw [Table.allTypes, List.mem_eraseDups, Table.after_index] at h
  obtain ⟨entry, hentry, rfl⟩ := List.mem_map.mp h
  refine (hasType_after es entry.2).mpr ?_
  exact (hentries _ _ entry hentry).resolve_left (by simp [Table.empty])

theorem foldl_joined (e : TypeEntry) (ds : List Declaration) :
    ds.foldl Declaration.joined (some e) =
      some { e with declarations := e.declarations ++ ds.map Declaration.site } := by
  induction ds generalizing e with
  | nil => simp
  | cons d rest ih =>
    have hstep : Declaration.joined (some e) d =
        some { e with declarations := e.declarations ++ [d.site] } := rfl
    rw [List.foldl_cons, hstep, ih]
    simp

/-- **A table that goes on from another one preserves all that it declares.** -/
theorem Continues.preserves {table last : Table} (h : Continues table last) {all : List Event}
    (hall : table = Table.empty.after all) : Preserves table last := by
  obtain ⟨es, rfl⟩ := h.records
  refine ⟨?_, ?_, ?_⟩
  · obtain ⟨more, hmore⟩ := h.index
    rw [Table.allTypes, Table.allTypes, ← hmore, List.map_append, List.eraseDups_append]
    exact List.prefix_append _ _
  · intro t ht
    have htype : table.hasType t = true := by
      rw [hall] at ht ⊢
      exact hasType_of_mem_allTypes ht
    rw [Table.hasType_eq_isSome, Option.isSome_iff_exists] at htype
    obtain ⟨e, he⟩ := htype
    have hafter := Table.after_entryOf? table es t
    rw [he, foldl_joined] at hafter
    exact ⟨e, _, he, hafter, rfl, rfl, List.prefix_append _ _⟩
  · intro t
    rw [Table.fieldsOf, Table.fieldsOf, Table.after_fields, List.filter_append]
    exact List.prefix_append _ _

theorem declareTrees_append (trees more : List SourceTree) :
    declareTrees (trees ++ more) = (do declareTrees trees; declareTrees more) := by
  rw [declareTrees, List.forM_eq_forM, List.forM_append]
  rfl

/-- Further trees are declared from the table of the first ones. -/
theorem declareTrees_after {trees : List SourceTree} {table mid : Table}
    (h : DeclaresTrees trees table mid) (more : List SourceTree) :
    declareTrees (trees ++ more) table = declareTrees more mid := by
  simp only [declareTrees_append, Bind.bind, EStateM.bind, declareTrees_iff.mpr h]

/-- Where the pass over the first trees stops, further trees are not reached. -/
theorem declareTrees_stopped {trees : List SourceTree} {table last : Table} {fault : Fault}
    (h : declareTrees trees table = .error fault last) (more : List SourceTree) :
    declareTrees (trees ++ more) table = .error fault last := by
  simp only [declareTrees_append, Bind.bind, EStateM.bind, h]

theorem declaredTable_append (trees added : List SourceTree) :
    (∃ table, DeclaresTrees trees .empty table) ∨
      declaredTable (trees ++ added) = declaredTable trees := by
  cases hr : declareTrees trees .empty with
  | ok u table => exact .inl ⟨table, declareTrees_iff.mp hr⟩
  | error fault table =>
    exact .inr (by rw [declaredTable, declaredTable, hr, declareTrees_stopped hr])

theorem declaredTable_preserves {trees added : List SourceTree}
    (hids : ∀ a ∈ trees ++ added, ∀ b ∈ trees ++ added, a.id = b.id → a = b) :
    Preserves (declaredTable trees) (declaredTable (trees ++ added)) := by
  obtain ⟨all, hall⟩ := declaredTable_records trees
  rcases declaredTable_append trees added with ⟨table, htable⟩ | hsame
  · have hdeclared : declaredTable trees = table := by
      rw [declaredTable, declareTrees_iff.mpr htable]
    have hapart : ∀ a ∈ trees, ∀ b ∈ added, a.id = b.id → a = b := fun a ha b hb =>
      hids a (List.mem_append_left _ ha) b (List.mem_append_right _ hb)
    have hcontinues : Continues (declaredTable trees) (declaredTable (trees ++ added)) := by
      rw [hdeclared, declaredTable_eq, declareTrees_after htable]
      exact declareTrees_continues htable hapart (.refl table)
    exact hcontinues.preserves hall
  · rw [hsame]
    exact (Continues.refl _).preserves hall

/-- The marker source adds no field. -/
theorem declaredTable_marker_fields (trees : List SourceTree) :
    (declaredTable (trees ++ [Marker.tree])).fields = (declaredTable trees).fields := by
  rcases declaredTable_append trees [Marker.tree] with ⟨table, htable⟩ | hsame
  · obtain ⟨node, -, -, hmarker⟩ := Marker.declaresCopy Marker.tree_isCopy table
    have hall := htable.append (.cons hmarker .nil)
    rw [declaredTable, declareTrees_iff.mpr hall, declaredTable, declareTrees_iff.mpr htable]
    exact (Marker.declared hmarker).2.2
  · rw [hsame]

end Symbols

open Syntax Symbols

/-- **Adding trees is a conservative extension.** The symbols of a compilation are preserved in the
compilation with further trees, whatever these declare and whether their names can be read or not.
The marker source adds no field to any type, so that the printable fields of a type are the same in
the compilation and in the one that candidates are confirmed against. -/
theorem addTrees_conservative (c : Compilation) (added : List SourceTree)
    (hids : ∀ a ∈ (c.addTrees added).trees, ∀ b ∈ (c.addTrees added).trees, a.id = b.id → a = b) :
    Preserves (build c.trees).model.table (build (c.addTrees added).trees).model.table ∧
      ∀ t, (build (c.addTrees [Marker.tree]).trees).model.table.fieldsOf t =
          (build c.trees).model.table.fieldsOf t ∧
        ∀ r, Traced.Gives (Resolver.ofTrees c.trees) (.ok r) →
          r.model.printableFields t = (build c.trees).model.printableFields t := by
  have hfields : ∀ t, (build (c.addTrees [Marker.tree]).trees).model.table.fieldsOf t =
      (build c.trees).model.table.fieldsOf t := by
    intro t
    rw [Table.fieldsOf, Table.fieldsOf, build_table, build_table]
    exact congrArg _ (declaredTable_marker_fields c.trees)
  refine ⟨?_, fun t => ⟨hfields t, fun r hr => ?_⟩⟩
  · rw [build_table, build_table]
    exact declaredTable_preserves hids
  · rw [Resolver.found_model (Resolver.found_of_gives hr), Model.printableFields,
      Model.printableFields]
    exact congrArg _ (hfields t)

/-- A second file and the first one once more add a nested class to the one class of the first. -/
theorem addTrees_conservative_sample :
    Preserves (build (Compilation.ofTrees [Sample.first]).trees).model.table
      (build ((Compilation.ofTrees [Sample.first]).addTrees
        [Sample.second, Sample.first]).trees).model.table ∧
    (build [Sample.first]).model.table.allTypes = [Sample.owner] ∧
    (build [Sample.first, Sample.second, Sample.first]).model.table.allTypes =
      [Sample.owner, .nested Sample.owner ⟨"B", 0⟩] := by
  have hids : ∀ a ∈ [Sample.first, Sample.second, Sample.first],
      ∀ b ∈ [Sample.first, Sample.second, Sample.first], a.id = b.id → a = b := by
    intro a ha b hb hid
    simp only [List.mem_cons, List.not_mem_nil, or_false] at ha hb
    rcases ha with rfl | rfl | rfl <;> rcases hb with rfl | rfl | rfl <;>
      first | rfl | exact absurd hid (by decide)
  refine ⟨(addTrees_conservative (.ofTrees [Sample.first]) [Sample.second, Sample.first] hids).1, ?_⟩
  rw [build_table, build_table]
  decide +kernel

end PrintGen
