import PrintGen.Proofs.Containers
import PrintGen.Proofs.Events
import PrintGen.Proofs.Grouping

/-!
# Which type declarations are visited

The declaration pass enters bodies, namespaces and wrappers only. The walk `visits` says which type
declarations it comes to that way, in which container each of them lies, and what name and type
parameters it has. The table is then described by the walk: a node stands for the type of its name
and arity in its container, and the types are listed in the order of their first visits.
-/

namespace PrintGen.Symbols

open Syntax

/-- A visit to a type declaration. -/
structure Visit where
  site : Site
  container : Entity
  name : String
  parameters : List String

/-- The type that the declaration belongs to. -/
def Visit.type (v : Visit) : TypePath :=
  v.container.member ⟨v.name, v.parameters.length⟩

/-- The namespace that segments lead to. -/
def Namespace.enter (n : Namespace) : List Segment → Namespace
  | [] => n
  | s :: rest => (child n s.name).enter rest

/-- What a type declaration says at this point. -/
def visitOf (tree : SourceTree) (container : Entity) (node : Node) : Except Fault Visit := do
  let name ← tree.declaredName node
  let parameters ← tree.typeParameters node
  return ⟨⟨tree, node⟩, container, name, parameters⟩

theorem sizes_openMembers (table : Table) (t : TypePath) (node : Node) :
    Node.sizes (openMembers table t node) < node.size := by
  rw [openMembers]
  split
  · rw [Node.size_eq]
    exact Nat.succ_pos _
  · exact sizes_members node

/-- The type declarations among some nodes, in source order. The body of a type is left out if the
type is an enumeration. -/
def visits (final : Table) (tree : SourceTree) :
    Namespace → Option TypePath → List Node → Except Fault (List Visit)
  | _, _, [] => .ok []
  | home, within, node :: rest =>
    match node.kind with
    | .namespaceDeclaration => do
      let segments ← segmentsOf tree node
      let inside ← visits final tree (home.enter segments) none (members node)
      let later ← visits final tree home within rest
      return inside ++ later
    | .fileScopedNamespace => do
      let segments ← segmentsOf tree node
      let inside ← visits final tree (home.enter segments) none node.children
      let later ← visits final tree (home.enter segments) within rest
      return inside ++ later
    | .typeDeclaration _ => do
      let visit ← visitOf tree (.around home within) node
      let inside ← visits final tree home (some visit.type) (openMembers final visit.type node)
      let later ← visits final tree home within rest
      return visit :: (inside ++ later)
    | .wrapper _ => do
      let inside ← visits final tree home within node.children
      let later ← visits final tree home within rest
      return inside ++ later
    | _ => visits final tree home within rest
termination_by _ _ nodes => Node.sizes nodes
decreasing_by
  all_goals
    have hsize : Node.sizes (node :: rest) = node.size + Node.sizes rest := rfl
    have hnode := Node.size_eq node
    first
      | omega
      | (have hmembers := sizes_members node; omega)
      | (have hopen := sizes_openMembers final visit.type node; omega)

/-- The type declarations of a list of trees, in tree order and then in source order. -/
def visitsOf (final : Table) (trees : List SourceTree) : Except Fault (List Visit) := do
  let visited ← trees.mapM fun tree => visits final tree .global none tree.root.children
  return visited.flatten

/-- The type declarations at or below some nodes of a tree, as sites. -/
def declarationSites (tree : SourceTree) (nodes : List Node) : List Site :=
  (sitesBelow tree nodes).filter fun s => s.node.kind.isTypeDeclaration

theorem declarationSites_cons (tree : SourceTree) (node : Node) (rest : List Node) :
    declarationSites tree (node :: rest) =
      declarationSites tree [node] ++ declarationSites tree rest := by
  rw [declarationSites, sitesBelow_cons, List.filter_append, declarationSites, sitesBelow_cons]
  simp [sitesBelow, declarationSites, Node.preorders]

theorem declarationSites_sublist (tree : SourceTree) {nodes more : List Node}
    (h : (Node.preorders nodes).Sublist (Node.preorders more)) :
    (declarationSites tree nodes).Sublist (declarationSites tree more) :=
  (h.map _).filter _

theorem declarationSites_type (tree : SourceTree) {node : Node} {kind : TypeKind}
    (hk : node.kind = .typeDeclaration kind) : declarationSites tree [node] =
      ⟨tree, node⟩ :: declarationSites tree node.children := by
  have hown : (Kind.typeDeclaration kind).isTypeDeclaration = true := rfl
  rw [declarationSites, sitesBelow_cons, Node.preorder_eq, List.map_cons, List.cons_append,
    List.filter_cons_of_pos (by rw [hk]; exact hown)]
  simp [sitesBelow, declarationSites, Node.preorders]

/-! ## The walk and the pass -/

/-- The visit that a recorded declaration was made in. -/
def Declaration.visit (d : Declaration) : Visit :=
  ⟨d.site, d.path.container, d.path.own.name, d.parameters⟩

/-- A run of the pass made these records, and the walk comes to the declarations among them. -/
structure Walk (final : Table) (tree : SourceTree) (home : Namespace) (within : Option TypePath)
    (nodes : List Node) (table last : Table) (es : List Event) : Prop where
  result : last = table.after es
  visited : visits final tree home within nodes = .ok ((declarationsIn es).map Declaration.visit)
  order : ((declarationsIn es).map Declaration.site).Sublist (declarationSites tree nodes)
  typed : ∀ d ∈ declarationsIn es, d.visit.type = d.path

theorem withScope_home (tree : SourceTree) (segments : List Segment) (scope : Scope)
    (table : Table) :
    (Table.withScope tree segments scope table).1.home = scope.home.enter segments := by
  induction segments generalizing scope table with
  | nil => rfl
  | cons s rest ih =>
    rw [Table.withScope, ih]
    rfl

theorem withDirective_records (table : Table) (tree : SourceTree) (node : Node) (scope : Scope)
    (d : Option (Option String × Node)) :
    ∃ es, table.withDirective tree node scope d = table.after es ∧ declarationsIn es = [] := by
  cases d with
  | none => exact ⟨[], rfl, rfl⟩
  | some directive => exact ⟨[.directive _], rfl, rfl⟩

theorem withScope_records (tree : SourceTree) (segments : List Segment) (scope : Scope)
    (table : Table) : ∃ es, (Table.withScope tree segments scope table).2 = table.after es ∧
      declarationsIn es = [] := by
  induction segments generalizing scope table with
  | nil => exact ⟨[], rfl, rfl⟩
  | cons s rest ih =>
    let home := Namespace.child scope.home s.name
    let entered := (table.withNamespace home).withFrame tree home false
    obtain ⟨es, hes, hnone⟩ := ih (entered.1 :: scope) entered.2
    refine ⟨[.home home, .level entered.1.mark] ++ es, ?_, hnone⟩
    rw [Table.after_append]
    exact hes

/-- A type that exists has its body entered in all later tables or in none. -/
theorem openMembers_of_grows {table last : Table} (hg : Grows table last) {t : TypePath}
    (ht : table.hasType t = true) (node : Node) :
    openMembers last t node = openMembers table t node := by
  obtain ⟨kind, hk⟩ := (Table.hasType_iff table t).mp ht
  rw [openMembers, openMembers, hk, hg.kinds t kind hk]

namespace Walk

variable {final : Table} {tree : SourceTree} {home inner next : Namespace}
  {around within : Option TypePath} {node : Node} {nodes rest : List Node}
  {table entered mid last : Table} {inside later : List Event}

/-- A node that neither declares a type nor is entered is passed over. -/
theorem pass (h : Walk final tree home within rest mid last later) (before : List Event)
    (hmid : mid = table.after before) (hnone : declarationsIn before = [])
    (hvisits : visits final tree home within (node :: rest) =
      visits final tree home within rest) :
    Walk final tree home within (node :: rest) table last (before ++ later) := by
  have hdeclared : declarationsIn (before ++ later) = declarationsIn later := by
    rw [declarationsIn_append, hnone, List.nil_append]
  refine ⟨?_, ?_, ?_, ?_⟩
  · rw [h.result, hmid, Table.after_append]
  all_goals rw [hdeclared]
  · exact hvisits.trans h.visited
  · rw [declarationSites_cons]
    exact h.order.trans (List.sublist_append_right _ _)
  · exact h.typed

/-- A node that declares no type itself is entered, and then the nodes after it are visited. -/
theorem enter (hin : Walk final tree inner around nodes entered mid inside)
    (hlater : Walk final tree next within rest mid last later) (before : List Event)
    (hentered : entered = table.after before) (hnone : declarationsIn before = [])
    (hbelow : (Node.preorders nodes).Sublist (Node.preorders [node]))
    (hvisits : visits final tree home within (node :: rest) = (do
      let inside ← visits final tree inner around nodes
      let later ← visits final tree next within rest
      return inside ++ later)) :
    Walk final tree home within (node :: rest) table last (before ++ (inside ++ later)) := by
  have hdeclared : declarationsIn (before ++ (inside ++ later)) =
      declarationsIn inside ++ declarationsIn later := by
    rw [declarationsIn_append, hnone, List.nil_append, declarationsIn_append]
  refine ⟨?_, ?_, ?_, ?_⟩
  · rw [hlater.result, hin.result, hentered, Table.after_append, Table.after_append]
  all_goals rw [hdeclared]
  · rw [hvisits, hin.visited, except_ok_bind, hlater.visited, except_ok_bind, List.map_append]
    rfl
  · rw [declarationSites_cons, List.map_append]
    exact (hin.order.trans (declarationSites_sublist tree hbelow)).append hlater.order
  · exact List.forall_mem_append.mpr ⟨hin.typed, hlater.typed⟩

end Walk

/-- **The walk finds the declarations that the pass records.** -/
theorem Declares.walk {tree : SourceTree} {scope : Scope} {within : Option TypePath}
    {nodes : List Node} {table last final : Table}
    (h : Declares tree scope within nodes table last) (hg : Grows last final) :
    ∃ es, Walk final tree scope.home within nodes table last es := by
  induction h with
  | nil => exact ⟨[], rfl, by rw [visits]; rfl, List.nil_sublist _, by simp [declarationsIn]⟩
  | @directive scope within node rest table last d hk hd hr ih =>
    obtain ⟨before, hbefore, hnone⟩ := withDirective_records table tree node scope d
    obtain ⟨es, hes⟩ := ih hg
    exact ⟨_, hes.pass before hbefore hnone (by rw [visits, hk])⟩
  | @block scope within node rest table mid last segments hk hn hb hr ihb ihr =>
    obtain ⟨before, hbefore, hnone⟩ := withScope_records tree segments scope table
    obtain ⟨inside, hinside⟩ := ihb (hr.grows.trans hg)
    obtain ⟨later, hlater⟩ := ihr hg
    rw [withScope_home] at hinside
    refine ⟨_, hinside.enter hlater before hbefore hnone
      ((preorders_members node).trans (preorders_children node)) ?_⟩
    rw [visits, hk, hn]
    rfl
  | @file scope within node rest table mid last segments hk hn hb hr ihb ihr =>
    obtain ⟨before, hbefore, hnone⟩ := withScope_records tree segments scope table
    obtain ⟨inside, hinside⟩ := ihb (hr.grows.trans hg)
    obtain ⟨later, hlater⟩ := ihr hg
    rw [withScope_home] at hinside hlater
    refine ⟨_, hinside.enter hlater before hbefore hnone (preorders_children node) ?_⟩
    rw [visits, hk, hn]
    rfl
  | @storage scope owner node rest table last fields hk hf hr ih =>
    obtain ⟨es, hes⟩ := ih hg
    refine ⟨_, hes.pass [.storage fields] rfl rfl ?_⟩
    rw [visits]
    cases hkind : node.kind <;> rw [hkind] at hk <;> first | rfl | cases hk
  | @type scope within node rest table mid last kind t parameters hk ht hb hr ihb ihr =>
    obtain ⟨inside, hinside⟩ := ihb (hr.grows.trans hg)
    obtain ⟨later, hlater⟩ := ihr hg
    obtain ⟨name, hname, hparameters, hpath⟩ := typeOf_ok ht
    let d : Declaration := ⟨tree, node, kind, scope, t, parameters⟩
    have hvisit : d.visit = ⟨⟨tree, node⟩, .around scope.home within, name, parameters⟩ := by
      simp [d, hpath, Declaration.visit, Declaration.site]
    have hread : visitOf tree (.around scope.home within) node = .ok d.visit := by
      rw [visitOf, hname, except_ok_bind, hparameters, except_ok_bind, hvisit]
      rfl
    have htype : d.visit.type = t := by
      rw [hvisit, hpath]
      rfl
    have hopen := openMembers_of_grows (hb.grows.trans (hr.grows.trans hg))
      (Table.withType_hasType table tree node kind scope t parameters) node
    refine ⟨[.declaration d] ++ (inside ++ later), ?_, ?_, ?_, ?_⟩
    · rw [hlater.result, hinside.result, Table.after_append, Table.after_append]
      rfl
    all_goals
      rw [declarationsIn_append, declarationsIn_append,
        show declarationsIn [.declaration d] = [d] from rfl, List.singleton_append]
    · have hwalk := hinside.visited
      rw [← hopen] at hwalk
      rw [visits, hk, List.map_cons, List.map_append]
      simp only [hread, htype, hwalk, hlater.visited, except_ok_bind]
      rfl
    · have hin := declarationSites_sublist tree
        (preorders_openMembers (table.withType tree node kind scope t parameters) t node)
      rw [declarationSites_cons, declarationSites_type tree hk, List.map_cons, List.map_append]
      exact ((hinside.order.trans hin).append hlater.order).cons_cons _
    · rw [List.forall_mem_cons]
      exact ⟨htype, List.forall_mem_append.mpr ⟨hinside.typed, hlater.typed⟩⟩
  | @wrapper scope within node rest table mid last w hk hb hr ihb ihr =>
    obtain ⟨inside, hinside⟩ := ihb (hr.grows.trans hg)
    obtain ⟨later, hlater⟩ := ihr hg
    exact ⟨_, hinside.enter hlater [] rfl rfl (preorders_children node)
      (by rw [visits, hk])⟩
  | @skip scope within node rest table last hk hs hr ih =>
    obtain ⟨es, hes⟩ := ih hg
    refine ⟨_, hes.pass [] rfl rfl ?_⟩
    rw [visits]
    cases hkind : node.kind <;> rw [hkind] at hk <;> first | rfl | cases hk

theorem DeclaresTree.walk {tree : SourceTree} {table last final : Table}
    (h : DeclaresTree tree table last) (hg : Grows last final) :
    ∃ es, Walk final tree .global none tree.root.children table last es := by
  obtain ⟨es, hes⟩ := Declares.walk h hg
  let opened : Event := .level (table.withFrame tree .global true).1.mark
  refine ⟨[opened] ++ es, ?_, hes.visited, hes.order, hes.typed⟩
  rw [hes.result, Table.after_append]
  rfl

/-- The declaration sites of a tree stand in its preorder. -/
theorem declarationSites_root (tree : SourceTree) :
    (declarationSites tree tree.root.children).Sublist
      ((tree.root.preorder.map (Site.mk tree)).filter fun s => s.node.kind.isTypeDeclaration) := by
  rw [Node.preorder_eq]
  exact ((List.sublist_cons_self _ _).map _).filter _

/-- A run of the pass over trees made these records, and the walk comes to the declarations among
them. -/
structure Walks (final : Table) (trees : List SourceTree) (table last : Table) (es : List Event) :
    Prop where
  result : last = table.after es
  visited : visitsOf final trees = .ok ((declarationsIn es).map Declaration.visit)
  order : ((declarationsIn es).map Declaration.site).Sublist (allSites trees)
  typed : ∀ d ∈ declarationsIn es, d.visit.type = d.path

theorem DeclaresTrees.walk {trees : List SourceTree} {table last final : Table}
    (h : DeclaresTrees trees table last) (hg : Grows last final) :
    ∃ es, Walks final trees table last es := by
  induction h with
  | nil => exact ⟨[], rfl, rfl, List.nil_sublist _, by simp [declarationsIn]⟩
  | @cons tree rest table mid last ht hr ih =>
    obtain ⟨es, hes⟩ := ht.walk (hr.grows.trans hg)
    obtain ⟨later, hlater⟩ := ih hg
    refine ⟨es ++ later, ?_, ?_, ?_, ?_⟩
    · rw [hlater.result, hes.result, Table.after_append]
    all_goals rw [declarationsIn_append]
    · obtain ⟨visited, hvisited, hflat⟩ := except_bind_ok.mp hlater.visited
      have hlist : visited.flatten = (declarationsIn later).map Declaration.visit :=
        Except.ok.inj hflat
      rw [visitsOf, List.mapM_cons, hes.visited, except_ok_bind, hvisited, List.map_append,
        ← hlist]
      rfl
    · rw [List.map_append, allSites, List.flatMap_cons]
      exact ((hes.order.trans (declarationSites_root tree)).trans List.filter_sublist).append
        hlater.order
    · exact List.forall_mem_append.mpr ⟨hes.typed, hlater.typed⟩

/-- Within one tree the walk comes to declarations in source order. -/
theorem DeclaresTrees.visits_order {trees : List SourceTree} {table last final : Table}
    (h : DeclaresTrees trees table last) (hg : Grows last final) :
    ∀ tree ∈ trees, ∃ visited, visits final tree .global none tree.root.children = .ok visited ∧
      (visited.map Visit.site).Sublist (declarationSites tree tree.root.children) := by
  induction h with
  | nil =>
    intro tree hmem
    cases hmem
  | cons ht hr ih =>
    rw [List.forall_mem_cons]
    refine ⟨?_, ih hg⟩
    obtain ⟨es, hes⟩ := ht.walk (hr.grows.trans hg)
    refine ⟨_, hes.visited, ?_⟩
    rw [List.map_map]
    exact hes.order

/-- **With distinct keys in each tree, the key of a node tells its visit.** -/
theorem visit_of_key {trees : List SourceTree} {last : Table} {visited : List Visit}
    (h : DeclaresTrees trees .empty last) (hv : visitsOf last trees = .ok visited)
    (hids : ∀ a ∈ trees, ∀ b ∈ trees, a.id = b.id → a = b)
    (hkeys : ∀ tree ∈ trees, KeysDistinct Kind.isTypeDeclaration tree) :
    ∀ v ∈ visited, ∀ w ∈ visited, v.site.key = w.site.key → v = w := by
  obtain ⟨lists, hlists, he⟩ := except_bind_ok.mp hv
  cases he
  -- A visit belongs to the walk over its own tree.
  have hwalk : ∀ v ∈ lists.flatten, ∃ tree ∈ trees, ∃ vs, v ∈ vs ∧
      visits last tree .global none tree.root.children = .ok vs ∧ v.site.tree = tree ∧
      (vs.map fun v => v.site.key).Nodup := by
    intro v hmem
    obtain ⟨vs, hvs, hin⟩ := List.mem_flatten.mp hmem
    obtain ⟨tree, ht, hrun⟩ := mem_of_mapM hlists hvs
    obtain ⟨vs', hrun', horder⟩ := h.visits_order (Grows.refl last) tree ht
    obtain rfl : vs = vs' := Except.ok.inj (hrun.symm.trans hrun')
    have hsites := horder.trans (declarationSites_root tree)
    refine ⟨tree, ht, vs, hin, hrun, ?_, ?_⟩
    · obtain ⟨node, _, hnode⟩ := List.mem_map.mp
        (List.mem_of_mem_filter (hsites.subset (List.mem_map_of_mem hin)))
      rw [← hnode]
    · have hnodup := hkeys tree ht
      rw [KeysDistinct, ← siteKeys_eq] at hnodup
      have hkeysOf := hnodup.sublist (hsites.map Site.key)
      rwa [List.map_map] at hkeysOf
  intro v hvm w hwm hkey
  obtain ⟨tree, ht, vs, hin, hrun, htree, hnodup⟩ := hwalk v hvm
  obtain ⟨tree', ht', ws, hin', hrun', htree', _⟩ := hwalk w hwm
  have hid : tree.id = tree'.id := by
    rw [← htree, ← htree']
    exact congrArg NodeKey.tree hkey
  obtain rfl := hids tree ht tree' ht' hid
  obtain rfl : vs = ws := Except.ok.inj (hrun.symm.trans hrun')
  exact List.inj_on_of_nodup_map hnodup hin hin' hkey

/-! ## The index of nodes -/

theorem map_putNodeType (key : NodeKey) (t : TypePath) (known : List (NodeKey × TypePath))
    (h : ∀ entry ∈ known, entry.1 = key → entry.2 = t) :
    (Table.putNodeType key t known).map Prod.snd =
      if key ∈ known.map Prod.fst then known.map Prod.snd else known.map Prod.snd ++ [t] := by
  induction known with
  | nil => rfl
  | cons entry rest ih =>
    obtain ⟨k, u⟩ := entry
    rw [List.forall_mem_cons] at h
    rw [Table.putNodeType]
    by_cases hk : k = key
    · have hu : u = t := h.1 hk
      rw [if_pos hk, if_pos (by simp [hk]), hu]
    · have hne : key ≠ k := fun he => hk he.symm
      rw [if_neg hk, List.map_cons, ih h.2, List.map_cons]
      by_cases hmem : key ∈ rest.map Prod.fst
      · rw [if_pos hmem, if_pos (List.mem_cons_of_mem _ hmem)]
        rfl
      · rw [if_neg hmem, if_neg (by simpa [hne] using hmem)]
        rfl

theorem mem_putNodeType {key : NodeKey} {t : TypePath} {known : List (NodeKey × TypePath)}
    {entry : NodeKey × TypePath} (h : entry ∈ Table.putNodeType key t known) :
    entry = (key, t) ∨ entry ∈ known := by
  induction known with
  | nil => exact .inl (List.mem_singleton.mp h)
  | cons first rest ih =>
    obtain ⟨k, u⟩ := first
    rw [Table.putNodeType] at h
    split at h
    · rename_i hk
      rw [List.mem_cons] at h
      exact h.imp (fun he => hk ▸ he) (List.mem_cons_of_mem _)
    · rcases List.mem_cons.mp h with rfl | hrest
      · exact .inr List.mem_cons_self
      · exact (ih hrest).imp id (List.mem_cons_of_mem _)

/-- The index after some declarations. -/
def indexOf (ds : List Declaration) : List (NodeKey × TypePath) :=
  ds.foldl (fun known d => Table.putNodeType d.site.key d.path known) []

theorem after_nodeTypes (es : List Event) :
    (Table.empty.after es).nodeTypes = indexOf (declarationsIn es) := by
  have hfold := Table.after_foldl Table.nodeTypes (fun _ => True)
    (fun known d => Table.putNodeType d.site.key d.path known)
    (fun table e he => (table.record_other he).2.2)
    (fun table d => by rw [if_pos trivial, Table.record, Table.withType_eq]; rfl) .empty es
  rw [hfold]
  simp [indexOf, Table.empty]

/-- Types enter the index with their first declaration, as long as no node changes its type. -/
theorem indexOf_types (ds : List Declaration)
    (h : ∀ d ∈ ds, ∀ e ∈ ds, d.site.key = e.site.key → d.path = e.path) :
    ((indexOf ds).map Prod.snd).eraseDups = (ds.map Declaration.path).eraseDups ∧
      ∀ entry ∈ indexOf ds, ∃ d ∈ ds, entry = (d.site.key, d.path) := by
  induction ds using List.reverseRecOn with
  | nil => exact ⟨rfl, by simp [indexOf]⟩
  | append_singleton ds d ih =>
    obtain ⟨hsame, hentries⟩ := ih fun e he f hf => h e (by simp [he]) f (by simp [hf])
    have hstep : indexOf (ds ++ [d]) = Table.putNodeType d.site.key d.path (indexOf ds) := by
      rw [indexOf, List.foldl_append]
      rfl
    have hknown : ∀ entry ∈ indexOf ds, entry.1 = d.site.key → entry.2 = d.path := by
      intro entry hentry hk
      obtain ⟨e, he, rfl⟩ := hentries entry hentry
      exact h e (by simp [he]) d (by simp) hk
    constructor
    · rw [hstep, map_putNodeType _ _ _ hknown, List.map_append, List.map_singleton,
        eraseDups_concat]
      have hmem : d.path ∈ (indexOf ds).map Prod.snd ↔ d.path ∈ ds.map Declaration.path := by
        rw [← List.mem_eraseDups, hsame, List.mem_eraseDups]
      by_cases hkey : d.site.key ∈ (indexOf ds).map Prod.fst
      · -- The node is known, and with it the type.
        obtain ⟨entry, hentry, hk⟩ := List.mem_map.mp hkey
        have hpath : d.path ∈ ds.map Declaration.path :=
          hmem.mp (hknown entry hentry hk ▸ List.mem_map_of_mem hentry)
        rw [if_pos hkey, if_pos hpath, hsame]
      · rw [if_neg hkey, eraseDups_concat, hsame]
        simp only [hmem]
    · intro entry hentry
      rw [hstep] at hentry
      rcases mem_putNodeType hentry with rfl | hold
      · exact ⟨d, by simp, rfl⟩
      · obtain ⟨e, he, heq⟩ := hentries entry hold
        exact ⟨e, by simp [he], heq⟩

theorem hasType_after (es : List Event) (t : TypePath) :
    (Table.empty.after es).hasType t = true ↔ t ∈ (declarationsIn es).map Declaration.path := by
  rw [Table.after_hasType]
  exact or_iff_right (by simp [Table.hasType, Table.empty])

end PrintGen.Symbols
