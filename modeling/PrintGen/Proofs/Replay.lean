import PrintGen.Proofs.Events

/-!
# Declaring a tree again

A tree that was declared in one table can be declared in another one, with the same records, if the
tree has as many marks there and if the types that it declares are of the same kinds. Both are the
case for trees in any order, as long as all declarations of a type agree on its kind.
-/

namespace PrintGen.Symbols

open Syntax

/-- A tree gets the same marks in both tables. -/
def SameRanks (tree : SourceTree) (table other : Table) : Prop :=
  Table.rankIn tree.id table.frames = Table.rankIn tree.id other.frames ∧
    Table.rankIn tree.id (table.usings.map Using.mark) =
      Table.rankIn tree.id (other.usings.map Using.mark)

theorem SameRanks.after {tree : SourceTree} {table other : Table} (h : SameRanks tree table other)
    (es : List Event) : SameRanks tree (table.after es) (other.after es) := by
  obtain ⟨hframes, husings⟩ := h
  constructor
  · rw [Table.after_frames, Table.after_frames, rankIn_append, rankIn_append, hframes]
  · rw [Table.after_usings, Table.after_usings, List.map_append, List.map_append, rankIn_append,
      rankIn_append, husings]

/-- Declarations come upon the same kinds in both tables. -/
def SameKinds (es : List Event) (table other : Table) : Prop :=
  ∀ d ∈ declarationsIn es,
    (table.kindOf? d.path).getD d.kind = (other.kindOf? d.path).getD d.kind

theorem SameKinds.left {es more : List Event} {table other : Table}
    (h : SameKinds (es ++ more) table other) : SameKinds es table other := by
  intro d hd
  apply h d
  rw [declarationsIn_append]
  exact List.mem_append_left _ hd

/-- The first declaration of a type settles its kind in both tables. -/
theorem SameKinds.right {es more : List Event} {table other : Table}
    (h : SameKinds (es ++ more) table other) : SameKinds more (table.after es) (other.after es) := by
  intro d hd
  rw [Table.after_kindOf?, Table.after_kindOf?]
  cases hfirst : (declarationsOf es d.path).head? with
  | none =>
    rw [Option.map_none, Option.or_none, Option.or_none]
    apply h d
    rw [declarationsIn_append]
    exact List.mem_append_right _ hd
  | some first =>
    obtain ⟨hmem, hpath⟩ := mem_declarationsOf.mp (List.mem_of_head? hfirst)
    have hkinds := h.left first hmem
    rw [hpath] at hkinds
    have hget : ∀ kind : Option TypeKind,
        (kind.or (some first.kind)).getD d.kind = kind.getD first.kind := by
      intro kind
      cases kind <;> rfl
    rw [Option.map_some, hget, hget, hkinds]

theorem kindOf?_after {table other : Table} {t : TypePath}
    (h : table.kindOf? t = other.kindOf? t) (es : List Event) :
    (table.after es).kindOf? t = (other.after es).kindOf? t := by
  rw [Table.after_kindOf?, Table.after_kindOf?, h]

/-! ## Runs that can be made again -/

/-- Records that are made in one table, inside a type or not, can be made in another one. -/
structure Fits (tree : SourceTree) (within : Option TypePath) (es : List Event)
    (table other : Table) : Prop where
  ranks : SameRanks tree table other
  kinds : SameKinds es table other
  around : ∀ t, within = some t → table.kindOf? t = other.kindOf? t

/-- A run comes to records of the tree, and wherever these fit there is such a run. -/
structure Replays (tree : SourceTree) (within : Option TypePath) (run : Table → Table → Prop)
    (table last : Table) (es : List Event) : Prop where
  result : last = table.after es
  sent : ∀ e ∈ es, e.From tree
  again : ∀ other, Fits tree within es table other → run other (other.after es)

section

variable {tree : SourceTree} {within : Option TypePath} {table mid last : Table}
  {es more : List Event} {run next : Table → Table → Prop}

theorem Fits.left {other : Table} (h : Fits tree within (es ++ more) table other) :
    Fits tree within es table other :=
  ⟨h.ranks, h.kinds.left, h.around⟩

theorem Fits.right {other : Table} (h : Fits tree within (es ++ more) table other) :
    Fits tree within more (table.after es) (other.after es) :=
  ⟨h.ranks.after es, h.kinds.right, fun t ht => kindOf?_after (h.around t ht) es⟩

theorem Replays.imp (h : Replays tree within run table last es)
    (hi : ∀ other last, Fits tree within es table other → run other last → next other last) :
    Replays tree within next table last es :=
  ⟨h.result, h.sent, fun other hf => hi other _ hf (h.again other hf)⟩

theorem Replays.outside (h : Replays tree none run table last es) :
    Replays tree within run table last es :=
  ⟨h.result, h.sent, fun other hf => h.again other ⟨hf.ranks, hf.kinds, fun t ht => by cases ht⟩⟩

theorem Replays.andThen (h : Replays tree within run table mid es)
    (hm : Replays tree within next mid last more) :
    Replays tree within (fun a c => ∃ b, run a b ∧ next b c) table last (es ++ more) := by
  refine ⟨?_, ?_, ?_⟩
  · rw [hm.result, h.result, Table.after_append]
  · rw [List.forall_mem_append]
    exact ⟨h.sent, hm.sent⟩
  · intro other hf
    have hright := hf.right
    rw [← h.result] at hright
    rw [Table.after_append]
    exact ⟨_, h.again other hf.left, hm.again _ hright⟩

/-- A declaration settles the kind of its type for what it contains. -/
theorem Replays.declared {d : Declaration} (hd : d.tree = tree)
    (h : Replays tree (some d.path) run (table.record (.declaration d)) last es) :
    Replays tree within (fun a b => run (a.record (.declaration d)) b) table last
      ([.declaration d] ++ es) := by
  refine ⟨?_, ?_, ?_⟩
  · rw [h.result, Table.after_append]
    rfl
  · rw [List.forall_mem_append, List.forall_mem_singleton]
    exact ⟨hd, h.sent⟩
  · intro other hf
    have hright := hf.right
    refine h.again (other.record (.declaration d)) ⟨hright.ranks, hright.kinds, ?_⟩
    intro t ht
    cases ht
    rw [Table.record_kindOf?, Table.record_kindOf?, if_pos rfl, if_pos rfl]
    exact congrArg some (hf.kinds d (by simp [declarationsIn, Event.declaration?]))

theorem withFields_replays (fields : List FieldEntry) :
    Replays tree within (fun a b => b = a.withFields fields) table (table.withFields fields)
      [.storage fields] :=
  ⟨rfl, by simp [Event.From], fun _ _ => rfl⟩

theorem withDirective_replays (node : Node) {scope : Scope}
    (hs : ∀ frame ∈ scope, frame.mark.tree = tree.id) (d : Option (Option String × Node)) :
    ∃ es, Replays tree within (fun a b => b = a.withDirective tree node scope d) table
      (table.withDirective tree node scope d) es := by
  cases d with
  | none => exact ⟨[], ⟨rfl, by simp, fun _ _ => rfl⟩⟩
  | some directive =>
    obtain ⟨aliasName, target⟩ := directive
    let u : Using := ⟨⟨tree.id, Table.rankIn tree.id (table.usings.map Using.mark)⟩,
      if node.hasChild .globalToken then none else scope.head?.map Frame.mark, tree, target,
      aliasName, node.hasChild .staticToken⟩
    refine ⟨[.directive u], ⟨rfl, ?_, ?_⟩⟩
    · rw [List.forall_mem_singleton]
      refine ⟨rfl, ?_⟩
      intro mark hmark
      have hhead : scope.head?.map Frame.mark = some mark := by
        change (if _ then none else _) = some mark at hmark
        split at hmark
        · cases hmark
        · exact hmark
      obtain ⟨frame, hframe, rfl⟩ := Option.map_eq_some_iff.mp hhead
      exact hs frame (List.mem_of_head? hframe)
    · intro other hf
      simp only [Table.withDirective, ← hf.ranks.2]
      rfl

/-- Entering namespaces opens the same levels. -/
theorem withScope_replays (table : Table) (segments : List Segment) {scope : Scope}
    (hs : ∀ frame ∈ scope, frame.mark.tree = tree.id) :
    ∃ es, Replays tree within (fun a b => Table.withScope tree segments scope a =
        ((Table.withScope tree segments scope table).1, b)) table
        (Table.withScope tree segments scope table).2 es ∧
      ∀ frame ∈ (Table.withScope tree segments scope table).1, frame.mark.tree = tree.id := by
  induction segments generalizing scope table with
  | nil => exact ⟨[], ⟨rfl, by simp, fun _ _ => rfl⟩, hs⟩
  | cons s rest ih =>
    let home := Namespace.child scope.home s.name
    let mark : Mark := ⟨tree.id, Table.rankIn tree.id table.frames⟩
    let entering : List Event := [.home home, .level mark]
    have henter : ∀ other, SameRanks tree table other →
        Table.withScope tree (s :: rest) scope other =
          Table.withScope tree rest (⟨mark, home, false⟩ :: scope) (other.after entering) := by
      intro other hranks
      have hrank : Table.rankIn tree.id (other.withNamespace (.child scope.home s.name)).frames =
          Table.rankIn tree.id table.frames := by
        rw [Table.withNamespace_frames, ← hranks.1]
      simp only [Table.withScope, Table.withFrame]
      rw [hrank]
      rfl
    have hself := henter table ⟨rfl, rfl⟩
    have hinner : ∀ frame ∈ (⟨mark, home, false⟩ :: scope : Scope), frame.mark.tree = tree.id := by
      rw [List.forall_mem_cons]
      exact ⟨rfl, hs⟩
    obtain ⟨es, hes, hframes⟩ := ih (table.after entering) hinner
    refine ⟨entering ++ es, ⟨?_, ?_, ?_⟩, ?_⟩
    · rw [hself, hes.result, Table.after_append]
    · rw [List.forall_mem_append]
      exact ⟨by simp [entering, Event.From, mark], hes.sent⟩
    · intro other hf
      rw [henter other hf.ranks, hself, hes.again _ hf.right, Table.after_append]
    · rw [hself]
      exact hframes

end

/-! ## Declaring a tree again -/

/-- **Declaring nodes can be repeated wherever the records fit.** -/
theorem Declares.replays {tree : SourceTree} {scope : Scope} {within : Option TypePath}
    {nodes : List Node} {table last : Table} (h : Declares tree scope within nodes table last)
    (hs : ∀ frame ∈ scope, frame.mark.tree = tree.id) :
    ∃ es, Replays tree within (Declares tree scope within nodes) table last es := by
  induction h with
  | nil => exact ⟨[], rfl, by simp, fun _ _ => .nil⟩
  | @directive scope within node rest table last d hk hd hr ih =>
    obtain ⟨es, hes⟩ := withDirective_replays node hs d
    obtain ⟨more, hmore⟩ := ih hs
    refine ⟨_, (hes.andThen hmore).imp ?_⟩
    rintro other last _ ⟨_, rfl, hrest⟩
    exact .directive hk hd hrest
  | @block scope within node rest table mid last segments hk hn hb hr ihb ihr =>
    obtain ⟨es, hes, hframes⟩ := withScope_replays _ segments hs
    obtain ⟨inside, hinside⟩ := ihb hframes
    obtain ⟨more, hmore⟩ := ihr hs
    refine ⟨_, (hes.andThen (hinside.outside.andThen hmore)).imp ?_⟩
    rintro other last _ ⟨entered, hentered, mid, hbody, hrest⟩
    exact .block hk hn (by rw [hentered]; exact hbody) hrest
  | @file scope within node rest table mid last segments hk hn hb hr ihb ihr =>
    obtain ⟨es, hes, hframes⟩ := withScope_replays _ segments hs
    obtain ⟨inside, hinside⟩ := ihb hframes
    obtain ⟨more, hmore⟩ := ihr hframes
    refine ⟨_, (hes.andThen (hinside.outside.andThen hmore)).imp ?_⟩
    rintro other last _ ⟨entered, hentered, mid, hbody, hrest⟩
    exact .file hk hn (by rw [hentered]; exact hbody) (by rw [hentered]; exact hrest)
  | @storage scope owner node rest table last fields hk hf hr ih =>
    obtain ⟨more, hmore⟩ := ih hs
    refine ⟨_, ((withFields_replays fields).andThen hmore).imp ?_⟩
    rintro other last hfits ⟨_, rfl, hrest⟩
    rw [hfits.around owner rfl] at hf
    exact .storage hk hf hrest
  | @type scope within node rest table mid last kind t parameters hk ht hb hr ihb ihr =>
    obtain ⟨es, hes⟩ := ihb hs
    obtain ⟨more, hmore⟩ := ihr hs
    let d : Declaration := ⟨tree, node, kind, scope, t, parameters⟩
    -- With one kind for the type, both tables open its body or neither does.
    have hbody : Replays tree (some d.path)
        (fun a b => Declares tree scope (some t) (openMembers a t node) a b)
        (table.record (.declaration d)) mid es := by
      refine hes.imp ?_
      intro other last hfits hdeclares
      rw [openMembers, ← hfits.around t rfl]
      exact hdeclares
    have htree : d.tree = tree := rfl
    refine ⟨_, ((hbody.declared htree).andThen hmore).imp ?_⟩
    rintro other last _ ⟨mid, hinside, hrest⟩
    exact .type hk ht hinside hrest
  | @wrapper scope within node rest table mid last w hk hb hr ihb ihr =>
    obtain ⟨es, hes⟩ := ihb hs
    obtain ⟨more, hmore⟩ := ihr hs
    refine ⟨_, (hes.andThen hmore).imp ?_⟩
    rintro other last _ ⟨mid, hinside, hrest⟩
    exact .wrapper hk hinside hrest
  | @skip scope within node rest table last hk hs' hr ih =>
    obtain ⟨es, hes⟩ := ih hs
    exact ⟨es, hes.imp fun other last _ hrest => .skip hk hs' hrest⟩

theorem DeclaresTree.replays {tree : SourceTree} {table last : Table}
    (h : DeclaresTree tree table last) :
    ∃ es, Replays tree none (DeclaresTree tree) table last es := by
  have hframe : ∀ frame ∈ [(table.withFrame tree .global true).1], frame.mark.tree = tree.id := by
    rw [List.forall_mem_singleton]
    rfl
  obtain ⟨es, hes⟩ := Declares.replays h hframe
  let mark : Mark := ⟨tree.id, Table.rankIn tree.id table.frames⟩
  refine ⟨[.level mark] ++ es, ⟨?_, ?_, ?_⟩⟩
  · rw [hes.result, Table.after_append]
    rfl
  · rw [List.forall_mem_append, List.forall_mem_singleton]
    exact ⟨rfl, hes.sent⟩
  · intro other hf
    have hopened : other.withFrame tree .global true =
        (⟨mark, .global, true⟩, other.after [.level mark]) := by
      rw [Table.withFrame, ← hf.ranks.1]
      rfl
    rw [DeclaresTree, hopened, Table.after_append]
    exact hes.again _ hf.right

/-! ## Trees in any order -/

/-- A tree has made no marks yet. -/
def Fresh (tree : SourceTree) (table : Table) : Prop :=
  Table.rankIn tree.id table.frames = 0 ∧
    Table.rankIn tree.id (table.usings.map Using.mark) = 0

theorem fresh_empty (tree : SourceTree) : Fresh tree .empty :=
  ⟨rfl, rfl⟩

/-- The records of a tree hold no marks of other trees. -/
theorem rankIn_sent {tree other : SourceTree} (hne : tree.id ≠ other.id) {es : List Event}
    (hs : ∀ e ∈ es, e.From tree) : Table.rankIn other.id (es.filterMap Event.mark?) = 0 ∧
      Table.rankIn other.id ((es.filterMap Event.using?).map Using.mark) = 0 := by
  constructor
  · rw [Table.rankIn, List.countP_eq_zero]
    intro mark hmark
    obtain ⟨e, he, hm⟩ := List.mem_filterMap.mp hmark
    rw [(hs e he).mark hm]
    simpa using hne
  · rw [Table.rankIn, List.countP_eq_zero]
    intro mark hmark
    obtain ⟨u, hu, rfl⟩ := List.mem_map.mp hmark
    obtain ⟨e, he, hue⟩ := List.mem_filterMap.mp hu
    rw [((hs e he).using hue).1]
    simpa using hne

theorem SameRanks.sent {tree other : SourceTree} (hne : tree.id ≠ other.id) {es : List Event}
    (hs : ∀ e ∈ es, e.From tree) (table : Table) : SameRanks other table (table.after es) := by
  obtain ⟨hframes, husings⟩ := rankIn_sent hne hs
  constructor
  · rw [Table.after_frames, rankIn_append, hframes, Nat.add_zero]
  · rw [Table.after_usings, List.map_append, rankIn_append, husings, Nat.add_zero]

theorem Fresh.after {tree other : SourceTree} {table : Table} (h : Fresh other table)
    (hne : tree.id ≠ other.id) {es : List Event} (hs : ∀ e ∈ es, e.From tree) :
    Fresh other (table.after es) := by
  obtain ⟨hframes, husings⟩ := SameRanks.sent hne hs table
  exact ⟨hframes.symm.trans h.1, husings.symm.trans h.2⟩

/-- All types of a table have the kinds that are laid down. -/
def Below (kinds : TypePath → Option TypeKind) (table : Table) : Prop :=
  ∀ t kind, table.kindOf? t = some kind → kinds t = some kind

theorem Below.after {kinds : TypePath → Option TypeKind} {table : Table} (h : Below kinds table)
    {es : List Event} (hd : ∀ d ∈ declarationsIn es, kinds d.path = some d.kind) :
    Below kinds (table.after es) := by
  intro t kind hk
  rw [Table.after_kindOf?] at hk
  rcases Option.or_eq_some_iff.mp hk with hold | ⟨_, hnew⟩
  · exact h t kind hold
  · obtain ⟨d, hhead, rfl⟩ := Option.map_eq_some_iff.mp hnew
    obtain ⟨hmem, rfl⟩ := mem_declarationsOf.mp (List.mem_of_head? hhead)
    exact hd d hmem

theorem Below.getD {kinds : TypePath → Option TypeKind} {table : Table} (h : Below kinds table)
    {d : Declaration} (hd : kinds d.path = some d.kind) :
    (table.kindOf? d.path).getD d.kind = d.kind := by
  cases hk : table.kindOf? d.path with
  | none => rfl
  | some kind =>
    have hkind := h d.path kind hk
    rw [hd] at hkind
    exact (Option.some.inj hkind).symm

/-- Wherever types have the kinds that are laid down, a new tree makes these records. -/
structure Adds (kinds : TypePath → Option TypeKind) (tree : SourceTree) (es : List Event) :
    Prop where
  sent : ∀ e ∈ es, e.From tree
  uniform : ∀ d ∈ declarationsIn es, kinds d.path = some d.kind
  declares : ∀ table, Fresh tree table → Below kinds table →
    DeclaresTree tree table (table.after es)

theorem declaresTrees_of_adds {kinds : TypePath → Option TypeKind} {trees : List SourceTree}
    {records : SourceTree → List Event} (h : ∀ tree ∈ trees, Adds kinds tree (records tree))
    (hids : (trees.map SourceTree.id).Nodup) {table : Table}
    (hfresh : ∀ tree ∈ trees, Fresh tree table) (hb : Below kinds table) :
    DeclaresTrees trees table (table.after (trees.flatMap records)) := by
  induction trees generalizing table with
  | nil => exact .nil
  | cons tree rest ih =>
    have hadds := h tree (by simp)
    rw [List.map_cons, List.nodup_cons] at hids
    rw [List.flatMap_cons, Table.after_append]
    refine .cons (hadds.declares table (hfresh tree (by simp)) hb)
      (ih (fun t ht => h t (by simp [ht])) hids.2 ?_ (hb.after hadds.uniform))
    intro other ho
    have hne : tree.id ≠ other.id := fun he => hids.1 (he ▸ List.mem_map_of_mem ho)
    exact (hfresh other (by simp [ho])).after hne hadds.sent

/-- **Declaring trees can be repeated wherever the records fit.** -/
theorem DeclaresTrees.replays {trees : List SourceTree} {table last : Table}
    (h : DeclaresTrees trees table last) : ∃ es, last = table.after es ∧
      (∀ e ∈ es, ∃ tree ∈ trees, e.From tree) ∧
      ∀ other, (∀ tree ∈ trees, SameRanks tree table other) → SameKinds es table other →
        DeclaresTrees trees other (other.after es) := by
  induction h with
  | nil => exact ⟨[], rfl, by simp, fun _ _ _ => .nil⟩
  | @cons tree rest table mid last ht hr ih =>
    obtain ⟨es, hes⟩ := ht.replays
    obtain ⟨more, hmore, hsent, hagain⟩ := ih
    refine ⟨es ++ more, by rw [hmore, hes.result, Table.after_append], ?_, ?_⟩
    · refine List.forall_mem_append.mpr ⟨fun e he => ⟨tree, by simp, hes.sent e he⟩, ?_⟩
      intro e he
      obtain ⟨other, ho, hfrom⟩ := hsent e he
      exact ⟨other, by simp [ho], hfrom⟩
    intro other hranks hkinds
    obtain ⟨htree, hrest⟩ := List.forall_mem_cons.mp hranks
    have hfirst := hes.again other ⟨htree, hkinds.left, fun t ht => by cases ht⟩
    rw [Table.after_append]
    refine .cons hfirst (hagain (other.after es) ?_ ?_)
    · rw [hes.result]
      exact fun t hmem => (hrest t hmem).after es
    · rw [hes.result]
      exact hkinds.right

theorem DeclaresTrees.again {trees : List SourceTree} {table last : Table}
    (h : DeclaresTrees trees table last) : ∃ es, last = table.after es ∧
      ∀ other, (∀ tree ∈ trees, SameRanks tree table other) → SameKinds es table other →
        DeclaresTrees trees other (other.after es) := by
  obtain ⟨es, hes, _, hagain⟩ := h.replays
  exact ⟨es, hes, hagain⟩

theorem DeclaresTrees.after {trees : List SourceTree} {table last : Table}
    (h : DeclaresTrees trees table last) : ∃ es, last = table.after es := by
  obtain ⟨es, hes, _⟩ := h.again
  exact ⟨es, hes⟩

/-- **If all declarations of a type agree on its kind, the records of a tree do not depend on when
it is declared.** -/
theorem DeclaresTrees.adds {trees : List SourceTree} {table last : Table}
    (h : DeclaresTrees trees table last) (hids : (trees.map SourceTree.id).Nodup)
    (hfresh : ∀ tree ∈ trees, Fresh tree table)
    (hkinds : ∀ t, ∀ s ∈ last.sitesOf t,
      ∃ kind, last.kindOf? t = some kind ∧ s.node.typeKind? = some kind) :
    ∀ tree ∈ trees, ∃ es, Adds last.kindOf? tree es := by
  induction h with
  | nil =>
    intro tree hmem
    cases hmem
  | @cons tree rest table mid last ht hr ih =>
    obtain ⟨es, hes⟩ := ht.replays
    obtain ⟨later, hlater⟩ := hr.after
    rw [List.map_cons, List.nodup_cons] at hids
    rw [List.forall_mem_cons]
    constructor
    · have huniform : ∀ d ∈ declarationsIn es, last.kindOf? d.path = some d.kind := by
        intro d hd
        have hsite : d.site ∈ last.sitesOf d.path := by
          rw [hlater, Table.after_sitesOf, hes.result, Table.after_sitesOf]
          refine List.mem_append_left _ (List.mem_append_right _ (List.mem_map_of_mem ?_))
          exact mem_declarationsOf.mpr ⟨hd, rfl⟩
        obtain ⟨kind, hlast, hnode⟩ := hkinds d.path d.site hsite
        have hkind : d.kind = kind := by
          change (d.site.node.typeKind?).getD d.type = kind
          rw [hnode]
          rfl
        rw [hlast, hkind]
      have hbelow : Below last.kindOf? table :=
        (DeclaresTrees.cons ht hr).grows.kinds
      refine ⟨es, hes.sent, huniform, ?_⟩
      intro other hother hb
      have htree := hfresh tree (by simp)
      refine hes.again other ⟨⟨htree.1.trans hother.1.symm, htree.2.trans hother.2.symm⟩, ?_,
        fun t ht => by cases ht⟩
      intro d hd
      rw [hbelow.getD (huniform d hd), hb.getD (huniform d hd)]
    · refine ih hids.2 ?_ hkinds
      intro other ho
      have hne : tree.id ≠ other.id := fun he => hids.1 (he ▸ List.mem_map_of_mem ho)
      rw [hes.result]
      exact (hfresh other (by simp [ho])).after hne hes.sent

theorem DeclaresTrees.fresh {trees : List SourceTree} {table last : Table}
    (h : DeclaresTrees trees table last) {other : SourceTree} (hf : Fresh other table)
    (hne : ∀ tree ∈ trees, tree.id ≠ other.id) : Fresh other last := by
  induction h with
  | nil => exact hf
  | cons ht hr ih =>
    obtain ⟨htree, hrest⟩ := List.forall_mem_cons.mp hne
    obtain ⟨es, hes⟩ := ht.replays
    refine ih ?_ hrest
    rw [hes.result]
    exact hf.after htree hes.sent

end PrintGen.Symbols
