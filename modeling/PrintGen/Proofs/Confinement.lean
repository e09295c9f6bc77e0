import PrintGen.Proofs.NodeTypes
import PrintGen.Proofs.Scopes

/-!
# Where a level is seen from

A name that a run declares sees the levels around the run and levels that the run opens, and no
others. So a level is seen from names inside the nodes that it was opened for, and from no name that
is declared later.
-/

namespace PrintGen.Symbols

open Syntax

/-! ## What a run adds -/

/-- A name inside these nodes that sees, of the levels with known marks, only those of a scope. -/
structure StandsIn (tree : SourceTree) (nodes : List Node) (scope : Scope) (known : List Mark)
    (site : Site) (seen : Scope) : Prop where
  tree : site.tree = tree
  node : site.node ∈ Node.preorders nodes
  levels : ∀ frame ∈ seen, frame ∈ scope ∨ frame.mark ∉ known

/-- All bases and attributes that a table has more than another one stand inside these nodes. An
attribute stands where its field does. -/
structure AddsInside (tree : SourceTree) (nodes : List Node) (scope : Scope) (known : List Mark)
    (table last : Table) : Prop where
  bases : ∀ b ∈ last.bases, b ∈ table.bases ∨
    StandsIn tree nodes scope known b.name.site b.name.scope
  attributes : ∀ f ∈ last.fields, ∀ r ∈ f.attributes, f ∈ table.fields ∨
    StandsIn tree nodes scope known f.site r.scope

section

variable {tree : SourceTree} {nodes : List Node} {scope : Scope} {known : List Mark}
  {table mid last : Table}

theorem AddsInside.of_eq (hb : last.bases = table.bases) (hf : last.fields = table.fields) :
    AddsInside tree nodes scope known table last :=
  ⟨fun _ hm => .inl (hb ▸ hm), fun _ hm _ _ => .inl (hf ▸ hm)⟩

theorem AddsInside.trans (h : AddsInside tree nodes scope known table mid)
    (hl : AddsInside tree nodes scope known mid last) :
    AddsInside tree nodes scope known table last := by
  constructor
  · intro b hb
    exact (hl.bases b hb).elim (h.bases b) .inr
  · intro f hf r hr
    exact (hl.attributes f hf r hr).elim (fun hm => h.attributes f hm r hr) .inr

/-- Names inside of some nodes are names inside of nodes around them, if only new levels were
opened in between. -/
theorem AddsInside.outward {inner : List Node} {scope' : Scope}
    (h : AddsInside tree inner scope' known table last)
    (hn : Node.preorders inner ⊆ Node.preorders nodes)
    (hs : ∀ frame ∈ scope', frame ∈ scope ∨ frame.mark ∉ known) :
    AddsInside tree nodes scope known table last := by
  have hout : ∀ {site seen}, StandsIn tree inner scope' known site seen →
      StandsIn tree nodes scope known site seen := fun hin =>
    ⟨hin.tree, hn hin.node, fun frame hf => (hin.levels frame hf).elim (hs frame) .inr⟩
  exact ⟨fun b hb => (h.bases b hb).imp_right hout,
    fun f hf r hr => (h.attributes f hf r hr).imp_right hout⟩

end

/-! ## Levels that are opened -/

theorem withScope_frames_subset (tree : SourceTree) (segments : List Segment) (scope : Scope)
    (table : Table) :
    table.frames ⊆ (Table.withScope tree segments scope table).2.frames := by
  induction segments generalizing scope table with
  | nil => exact List.Subset.refl _
  | cons s rest ih =>
    refine List.Subset.trans ?_ (ih _ _)
    rw [Table.withFrame, Table.withNamespace_frames]
    exact List.subset_append_left _ _

/-- Entering one more namespace opens a level with a mark of its own. -/
theorem enter_ranked {table : Table} (h : Ranked table.frames) (tree : SourceTree)
    (home : Namespace) :
    Ranked ((table.withNamespace home).withFrame tree home false).2.frames ∧
      ((table.withNamespace home).withFrame tree home false).1.mark ∉ table.frames ∧
      table.frames ⊆ ((table.withNamespace home).withFrame tree home false).2.frames := by
  simp only [Table.withFrame, Table.withNamespace_frames]
  exact ⟨h.add tree.id, h.fresh tree.id, List.subset_append_left _ _⟩

/-- The levels of an inner scope that are not levels of the outer one are new. -/
theorem withScope_levels {table : Table} (h : Ranked table.frames) (tree : SourceTree)
    (segments : List Segment) (scope : Scope) :
    ∀ frame ∈ (Table.withScope tree segments scope table).1,
      frame ∈ scope ∨ frame.mark ∉ table.frames := by
  induction segments generalizing scope table with
  | nil => exact fun frame hf => .inl hf
  | cons s rest ih =>
    intro frame hf
    obtain ⟨hnext, hnew, hold⟩ := enter_ranked h tree (.child scope.home s.name)
    rcases ih hnext _ frame hf with hmem | hfresh
    · rcases List.mem_cons.mp hmem with rfl | hmem
      · exact .inr hnew
      · exact .inl hmem
    · exact .inr fun hknown => hfresh (hold hknown)

/-- If a scope was entered at all, its innermost level is new. -/
theorem withScope_head {table : Table} (h : Ranked table.frames) (tree : SourceTree)
    {segments : List Segment} (hs : segments ≠ []) (scope : Scope) {frame : Frame}
    (hf : (Table.withScope tree segments scope table).1.head? = some frame) :
    frame.mark ∉ table.frames := by
  induction segments generalizing scope table with
  | nil => exact absurd rfl hs
  | cons s rest ih =>
    obtain ⟨hnext, hnew, hold⟩ := enter_ranked h tree (.child scope.home s.name)
    cases rest with
    | nil =>
      cases hf
      exact hnew
    | cons s' rest => exact fun hknown => ih hnext (List.cons_ne_nil _ _) _ hf (hold hknown)

theorem withScope_head_or {table : Table} (h : Ranked table.frames) {tree : SourceTree}
    {segments : List Segment} {scope : Scope} {frame : Frame}
    (hf : (Table.withScope tree segments scope table).1.head? = some frame) :
    scope.head? = some frame ∨ frame.mark ∉ table.frames := by
  cases segments with
  | nil => exact .inl hf
  | cons s rest => exact .inr (withScope_head h tree (List.cons_ne_nil _ _) scope hf)

theorem withScope_ne_nil {tree : SourceTree} {segments : List Segment} {scope : Scope}
    {table : Table} (h : scope ≠ []) : (Table.withScope tree segments scope table).1 ≠ [] :=
  fun hnil => h (List.suffix_nil.mp (hnil ▸ withScope_suffix tree segments scope table))

theorem Settled.ranked {table : Table} {scope : Scope} (h : Settled table scope) :
    Ranked table.frames := by
  obtain ⟨_, ha⟩ := h
  exact ha.frames

theorem Settled.scope_known {table : Table} {scope : Scope} (h : Settled table scope) :
    ∀ frame ∈ scope, frame.mark ∈ table.frames := by
  obtain ⟨_, ha⟩ := h
  exact ha.levels_known ha.here

theorem Declares.frames_subset {tree : SourceTree} {scope : Scope} {within : Option TypePath}
    {nodes : List Node} {table last : Table} (h : Declares tree scope within nodes table last) :
    table.frames ⊆ last.frames := by
  induction h with
  | nil => exact List.Subset.refl _
  | directive hk hd hr ih => rwa [Table.withDirective_frames] at ih
  | block hk hn hb hr ihb ihr
  | file hk hn hb hr ihb ihr =>
    exact List.Subset.trans (withScope_frames_subset _ _ _ _) (List.Subset.trans ihb ihr)
  | storage hk hf hr ih => exact ih
  | type hk ht hb hr ihb ihr =>
    rw [Table.withType_frames] at ihb
    exact List.Subset.trans ihb ihr
  | wrapper hk hb hr ihb ihr => exact List.Subset.trans ihb ihr
  | skip hk hs hr ih => exact ih

/-- A level of a scope that is entered is known only if it was there before. -/
theorem Settled.unknown {table : Table} {scope : Scope} (h : Settled table scope)
    {known : List Mark} (hm : known ⊆ table.frames) (tree : SourceTree)
    (segments : List Segment) :
    ∀ frame ∈ (Table.withScope tree segments scope table).1,
      frame ∈ scope ∨ frame.mark ∉ known :=
  fun frame hf => (withScope_levels h.ranked tree segments scope frame hf).imp_right
    fun hnew hmem => hnew (hm hmem)

/-- What a namespace adds is inside of it. -/
theorem AddsInside.entered {tree : SourceTree} {inside nodes : List Node} {scope : Scope}
    {segments : List Segment} {known : List Mark} {table mid : Table}
    (h : AddsInside tree inside (Table.withScope tree segments scope table).1 known
      (Table.withScope tree segments scope table).2 mid)
    (hbelow : Node.preorders inside ⊆ Node.preorders nodes)
    (hlevels : ∀ frame ∈ (Table.withScope tree segments scope table).1,
      frame ∈ scope ∨ frame.mark ∉ known) : AddsInside tree nodes scope known table mid := by
  have hstep : AddsInside tree nodes scope known table
      (Table.withScope tree segments scope table).2 := .of_eq (by simp) (by simp)
  exact hstep.trans (h.outward hbelow hlevels)

/-- **A run adds names inside its nodes, which see no known level but those around the run.** -/
theorem Declares.addsInside {tree : SourceTree} {scope : Scope} {within : Option TypePath}
    {nodes : List Node} {table last : Table} (h : Declares tree scope within nodes table last)
    (hs : Settled table scope) {known : List Mark} (hm : known ⊆ table.frames) :
    AddsInside tree nodes scope known table last := by
  have hsame : ∀ {scope : Scope}, ∀ frame ∈ scope, frame ∈ scope ∨ frame.mark ∉ known :=
    fun frame hf => .inl hf
  have hbelow : ∀ {node : Node} (rest : List Node) {inner : List Node},
      (Node.preorders inner).Sublist (Node.preorders node.children) →
      Node.preorders inner ⊆ Node.preorders (node :: rest) := by
    intro node rest inner hsub
    rw [Node.preorders, Node.preorder_eq]
    exact fun n hn => List.mem_append_left _ (List.mem_cons_of_mem _ (hsub.subset hn))
  have hrest : ∀ {node : Node} {rest : List Node},
      Node.preorders rest ⊆ Node.preorders (node :: rest) := by
    intro node rest
    rw [Node.preorders]
    exact List.subset_append_right _ _
  induction h with
  | nil => exact .of_eq rfl rfl
  | @directive scope within node rest table last d hk hd hr ih =>
    have hstep : AddsInside tree (node :: rest) scope known table
        (table.withDirective tree node scope d) := .of_eq (by simp) (by simp)
    refine hstep.trans ((ih (hs.withDirective tree node d) ?_).outward hrest hsame)
    rwa [Table.withDirective_frames]
  | @block scope within node rest table mid last segments hk hn hb hr ihb ihr =>
    have hopened := hs.withScope tree segments
    have hknown := List.Subset.trans hm (withScope_frames_subset tree segments scope table)
    have hinner := (ihb hopened hknown).entered (hbelow rest (preorders_members node))
      (hs.unknown hm tree segments)
    have hclosed := (hb.settled hopened).suffix (withScope_suffix tree segments scope table)
    have hafter := ihr hclosed (List.Subset.trans hknown hb.frames_subset)
    exact hinner.trans (hafter.outward hrest hsame)
  | @file scope within node rest table mid last segments hk hn hb hr ihb ihr =>
    have hopened := hs.withScope tree segments
    have hknown := List.Subset.trans hm (withScope_frames_subset tree segments scope table)
    have hlevels := hs.unknown hm tree segments
    have hinner := (ihb hopened hknown).entered (hbelow rest (List.Sublist.refl _)) hlevels
    have hafter := ihr (hb.settled hopened) (List.Subset.trans hknown hb.frames_subset)
    exact hinner.trans (hafter.outward hrest hlevels)
  | @storage scope owner node rest table last fields hk hf hr ih =>
    have hstep : AddsInside tree (node :: rest) scope known table (table.withFields fields) := by
      refine ⟨fun b hb => .inl hb, fun f hmem r hr => ?_⟩
      refine (List.mem_append.mp hmem).imp_right fun hnew => ?_
      obtain ⟨_, name, _, rfl⟩ := storedFields_references hf f hnew r hr
      obtain ⟨n, hn, hsite⟩ := List.mem_map.mp
        ((storedFields_spec hf).2.subset (List.mem_map_of_mem hnew))
      refine ⟨by rw [← hsite], ?_, hsame⟩
      rw [← hsite, Node.preorders]
      exact List.mem_append_left _ hn
    have hafter := hs.withFields fun f hmem r hr => by
      obtain ⟨_, name, _, rfl⟩ := storedFields_references hf f hmem r hr
      rfl
    exact hstep.trans ((ih hafter hm).outward hrest hsame)
  | @type scope within node rest table mid last kind t parameters hk ht hb hr ihb ihr =>
    have hstep : AddsInside tree (node :: rest) scope known table
        (table.withType tree node kind scope t parameters) := by
      refine ⟨fun b hmem => ?_, fun f hmem _ _ => .inl (by simpa using hmem)⟩
      refine (mem_withType_bases hmem).imp_right ?_
      rintro ⟨name, hname, rfl⟩
      refine ⟨rfl, ?_, hsame⟩
      rw [Node.preorders]
      exact List.mem_append_left _ (baseName?_mem hname)
    have hopened := hs.withType tree node kind t parameters
    have hknown : known ⊆ (table.withType tree node kind scope t parameters).frames := by
      rwa [Table.withType_frames]
    have hinner := (ihb hopened hknown).outward (hbelow rest (preorders_openMembers _ _ node)) hsame
    have hafter := ihr (hb.settled hopened) (List.Subset.trans hknown hb.frames_subset)
    exact (hstep.trans hinner).trans (hafter.outward hrest hsame)
  | @wrapper scope within node rest table mid last w hk hb hr ihb ihr =>
    have hafter := ihr (hb.settled hs) (List.Subset.trans hm hb.frames_subset)
    exact ((ihb hs hm).outward (hbelow rest (List.Sublist.refl _)) hsame).trans
      (hafter.outward hrest hsame)
  | @skip scope within node rest table last hk hw hr ih =>
    exact (ih hs hm).outward hrest hsame

/-! ## Levels that are seen from a region only -/

/-- Every name that sees a level lies in a region. An attribute lies where its field does. -/
structure SeenOnlyFrom (region : Site → Prop) (mark : Mark) (table : Table) : Prop where
  bases : ∀ b ∈ table.bases, ∀ frame ∈ b.name.scope, frame.mark = mark → region b.name.site
  attributes : ∀ f ∈ table.fields, ∀ r ∈ f.attributes, ∀ frame ∈ r.scope, frame.mark = mark →
    region f.site

section

variable {region : Site → Prop} {mark : Mark} {tree : SourceTree} {nodes : List Node}
  {scope : Scope} {known : List Mark} {table last : Table}

/-- A level that is not there yet is seen from nowhere. -/
theorem Settled.seenOnlyFrom (h : Settled table scope) (hm : mark ∉ table.frames) :
    SeenOnlyFrom region mark table := by
  obtain ⟨registered, ha⟩ := h
  constructor
  · rintro b hb frame hf rfl
    exact absurd (ha.levels_known (ha.bases b hb) frame hf) hm
  · rintro f hf r hr frame hframe rfl
    exact absurd (ha.levels_known (ha.attributes f hf r hr) frame hframe) hm

/-- A region that holds the nodes of a run also holds the names that the run adds. -/
theorem SeenOnlyFrom.during (h : SeenOnlyFrom region mark table)
    (ha : AddsInside tree nodes scope known table last)
    (hr : ∀ n ∈ Node.preorders nodes, region ⟨tree, n⟩) : SeenOnlyFrom region mark last := by
  have hin : ∀ {site seen}, StandsIn tree nodes scope known site seen → region site := by
    rintro ⟨_, n⟩ seen ⟨rfl, hn, _⟩
    exact hr n hn
  constructor
  · intro b hb frame hf hm
    exact (ha.bases b hb).elim (fun hold => h.bases b hold frame hf hm) hin
  · intro f hf r hr frame hframe hm
    exact (ha.attributes f hf r hr).elim (fun hold => h.attributes f hold r hr frame hframe hm) hin

/-- A known level that is not around a run is not seen from the names that the run adds. -/
theorem SeenOnlyFrom.later (h : SeenOnlyFrom region mark table)
    (ha : AddsInside tree nodes scope known table last) (hm : mark ∈ known)
    (hs : ∀ frame ∈ scope, frame.mark ≠ mark) : SeenOnlyFrom region mark last := by
  have hunseen : ∀ {site seen}, StandsIn tree nodes scope known site seen →
      ∀ frame ∈ seen, frame.mark ≠ mark := by
    rintro site seen hin frame hf rfl
    exact (hin.levels frame hf).elim (fun hmem => hs frame hmem rfl) fun hnew => hnew hm
  constructor
  · intro b hb frame hf hmark
    exact (ha.bases b hb).elim (fun hold => h.bases b hold frame hf hmark)
      fun hin => absurd hmark (hunseen hin frame hf)
  · intro f hf r hr frame hframe hmark
    exact (ha.attributes f hf r hr).elim
      (fun hold => h.attributes f hold r hr frame hframe hmark)
      fun hin => absurd hmark (hunseen hin frame hframe)

end

end PrintGen.Symbols
