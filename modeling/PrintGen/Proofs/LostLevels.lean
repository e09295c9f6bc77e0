import PrintGen.Proofs.Erasure

/-!
# The levels that lose a directive

A directive that is taken out of a tree was seen from one level, or from several if the tree is
declared more than once. All of these were opened inside the innermost block around the directive,
or are the level of its file, so they are seen from there only.
-/

namespace PrintGen.Symbols

open Syntax

/-! ## Levels and regions -/

/-- A place in a tree, inside of a block of it if one is given. -/
def Within (tree : SourceTree) (block : Option Node) (site : Site) : Prop :=
  site.tree = tree ∧ ∀ b ∈ block, site.node ∈ b.preorder

/-- A recorded directive that says what a node says. -/
def Says (tree : SourceTree) (d : Node) (u : Using) : Prop :=
  u.tree = tree ∧ directiveOf tree d = .ok (some (u.aliasName, u.target))

/-- A directive that is lost from one of these levels. -/
def LostFrom (tree : SourceTree) (d : Node) (marks : Mark → Prop) (u : Using) : Prop :=
  Says tree d u ∧ ∃ mark, u.frame = some mark ∧ marks mark

/-- A level that a run may lose a directive from: the innermost level around the run, if the
directive belongs to no block inside, or else a new one, which is seen from the block only. -/
def Loses (tree : SourceTree) (block : Option Node) (scope : Scope) (table last : Table)
    (mark : Mark) : Prop :=
  (block = none ∧ ∃ frame, scope.head? = some frame ∧ frame.mark = mark) ∨
    mark ∉ table.frames ∧ mark ∈ last.frames ∧
      (block ≠ none → SeenOnlyFrom (Within tree block) mark last)

section

variable {tree : SourceTree} {block : Option Node} {scope inner : Scope}
  {table opened mid last : Table} {mark : Mark}

/-- What is declared after a run does not see the levels that the run opened. -/
theorem Loses.after (h : Loses tree block inner opened mid mark) {after : Scope}
    {within : Option TypePath} {rest : List Node} (hr : Declares tree after within rest mid last)
    (hs : Settled mid after) (hk : ∀ frame ∈ after, frame.mark ∈ opened.frames) :
    Loses tree block inner opened last mark := by
  refine h.imp_right ?_
  rintro ⟨hnew, hin, hseen⟩
  refine ⟨hnew, hr.frames_subset hin, fun hb => ?_⟩
  refine (hseen hb).later (hr.addsInside hs (List.Subset.refl _)) hin fun frame hf => ?_
  rintro rfl
  exact hnew (hk frame hf)

/-- The levels that a run opens before it goes inside are new, too. -/
theorem Loses.outward (h : Loses tree block inner opened last mark)
    (hf : table.frames ⊆ opened.frames)
    (hhead : ∀ frame, inner.head? = some frame →
      scope.head? = some frame ∨ frame.mark ∉ table.frames)
    (hk : ∀ frame ∈ inner, frame.mark ∈ last.frames) : Loses tree block scope table last mark := by
  rcases h with ⟨hb, frame, hframe, rfl⟩ | ⟨hnew, hin, hseen⟩
  · rcases hhead frame hframe with hsame | hnew
    · exact .inl ⟨hb, frame, hsame, rfl⟩
    · exact .inr ⟨hnew, hk frame (List.mem_of_mem_head? hframe), fun hne => absurd hb hne⟩
  · exact .inr ⟨fun hold => hnew (hf hold), hin, hseen⟩

/-- A level that was opened inside of some nodes is seen from there only. -/
theorem Loses.seen (h : Loses tree none inner opened last mark) (hs : Settled table scope)
    (hf : table.frames ⊆ opened.frames)
    (hhead : ∀ frame, inner.head? = some frame → frame.mark ∉ table.frames)
    (hk : ∀ frame ∈ inner, frame.mark ∈ last.frames) {nodes : List Node}
    (ha : AddsInside tree nodes inner [] table last) {region : Site → Prop}
    (hr : ∀ n ∈ Node.preorders nodes, region ⟨tree, n⟩) :
    mark ∉ table.frames ∧ mark ∈ last.frames ∧ SeenOnlyFrom region mark last := by
  have hnew : mark ∉ table.frames ∧ mark ∈ last.frames := by
    rcases h with ⟨_, frame, hframe, rfl⟩ | ⟨hnew, hin, _⟩
    · exact ⟨hhead frame hframe, hk frame (List.mem_of_mem_head? hframe)⟩
    · exact ⟨fun hold => hnew (hf hold), hin⟩
  exact ⟨hnew.1, hnew.2, (hs.seenOnlyFrom hnew.1).during ha hr⟩

end

/-! ## Runs over nodes -/

/-- Runs over nodes with and without a directive come to tables that correspond, once the directives
are left out that the levels of the run lose. -/
def Corresponding (tree : SourceTree) (d : Node) (marks new : Mark → Prop) (last last' : Table) :
    Prop :=
  ∃ marks' : Mark → Prop, (∀ mark, marks' mark → marks mark ∨ new mark) ∧
    Twin unmoved (LostFrom tree d marks') last last'

theorem LostFrom.mono {tree : SourceTree} {d : Node} {marks marks' : Mark → Prop}
    (h : ∀ mark, marks mark → marks' mark) {u : Using} (hu : LostFrom tree d marks u) :
    LostFrom tree d marks' u :=
  ⟨hu.1, hu.2.imp fun _ hm => ⟨hm.1, h _ hm.2⟩⟩

section

variable {tree other : SourceTree} {d : Node} {marks new new' : Mark → Prop}
  {mid mid' last last' : Table}

theorem Corresponding.mono (h : Corresponding tree d marks new last last')
    (hn : ∀ mark, new mark → new' mark) : Corresponding tree d marks new' last last' := by
  obtain ⟨marks', hnew, hlast⟩ := h
  exact ⟨marks', fun mark hm => (hnew mark hm).imp_right (hn mark), hlast⟩

theorem Corresponding.declares (h : Corresponding tree d marks new mid mid')
    (hsame : SameText tree other) {scope : Scope} {within : Option TypePath} {rest : List Node}
    (hr : Declares tree scope within rest mid last)
    (hr' : Declares other scope within rest mid' last') :
    Corresponding tree d marks new last last' := by
  obtain ⟨marks', hnew, hmid⟩ := h
  exact ⟨marks', hnew, hmid.declares hsame hr hr'⟩

end

/-- Runs over these nodes, with and without a directive, always come to such tables. -/
def ErasedAlike (tree other : SourceTree) (d : Node) (block : Option Node)
    (nodes nodes' : List Node) : Prop :=
  ∀ ⦃scope : Scope⦄ ⦃within : Option TypePath⦄ ⦃table table' last last' : Table⦄
    ⦃marks : Mark → Prop⦄, Twin unmoved (LostFrom tree d marks) table table' →
    Settled table scope → scope ≠ [] → Declares tree scope within nodes table last →
    Declares other scope within nodes' table' last' →
    Corresponding tree d marks (Loses tree block scope table last) last last'

section

variable {tree other : SourceTree} (hsame : SameText tree other) {d : Node} {block : Option Node}
  {node : Node} {rest rest' inner : List Node}

include hsame

theorem erasedAlike_here (hd : d.kind = .usingDirective) (hg : d.hasChild .globalToken = false) :
    ErasedAlike tree other d none (d :: rest) rest := by
  intro scope within table table' last last' marks ht hs hne h h'
  obtain ⟨v, hv, hr⟩ := h.of_directive hd
  cases v with
  | none => exact ⟨marks, fun _ => .inl, ht.declares hsame hr h'⟩
  | some parts =>
    obtain ⟨aliasName, target⟩ := parts
    obtain ⟨frame, outer, rfl⟩ := List.exists_cons_of_ne_nil hne
    have hgone : LostFrom tree d (fun mark => marks mark ∨ mark = frame.mark)
        ⟨⟨tree.id, Table.rankIn tree.id (table.usings.map Using.mark)⟩,
          if d.hasChild .globalToken then none else some frame.mark, tree, target, aliasName,
          d.hasChild .staticToken⟩ := ⟨⟨rfl, hv⟩, frame.mark, by rw [hg]; rfl, .inr rfl⟩
    have hstep : Twin unmoved (LostFrom tree d fun mark => marks mark ∨ mark = frame.mark)
        (table.withDirective tree d (frame :: outer) (some (aliasName, target))) table' := by
      refine { ht with usings := ?_ }
      have hkept := (ht.usings.mono (fun u => LostFrom.mono fun _ => .inl) fun _ _ => id).append
        (.lose hgone .nil)
      rwa [List.append_nil] at hkept
    refine ⟨_, fun mark hm => ?_, hstep.declares hsame hr h'⟩
    exact hm.imp_right fun he => .inl ⟨rfl, frame, rfl, he.symm⟩

/-- Nodes in front of the directive are declared alike. -/
theorem erasedAlike_later (ih : ErasedAlike tree other d block rest rest') :
    ErasedAlike tree other d block (node :: rest) (node :: rest') := by
  intro scope within table table' last last' marks ht hs hne h h'
  by_cases hk : node.kind = .fileScopedNamespace
  · -- The level of such a namespace stays open for the nodes after it.
    obtain ⟨segments, mid, hn, hb, hr⟩ := h.of_file hk
    obtain ⟨segments', mid', hn', hb', hr'⟩ := h'.of_file hk
    rw [segmentsOf_same hsame, hn] at hn'
    cases hn'
    obtain ⟨hscope, hopened⟩ := ht.withScope hsame segments scope
    rw [hscope] at hb' hr'
    have hset := hs.withScope tree segments
    have hmid := hopened.declares hsame hb hb'
    refine (ih hmid (hb.settled hset) (withScope_ne_nil hne) hr hr').mono fun mark hl => ?_
    refine hl.outward (List.Subset.trans (withScope_frames_subset _ _ _ _) hb.frames_subset)
      (fun _ => withScope_head_or hs.ranked) fun frame hf => ?_
    exact hr.frames_subset ((hb.settled hset).scope_known frame hf)
  · obtain ⟨mid, hfirst, hr⟩ := h.first hk
    obtain ⟨mid', hfirst', hr'⟩ := h'.first hk
    have hmid := ht.declares hsame hfirst hfirst'
    refine (ih hmid (hfirst.settled hs) hne hr hr').mono fun mark hl => ?_
    exact hl.outward hfirst.frames_subset (fun _ => .inl) fun frame hf =>
      hr.frames_subset ((hfirst.settled hs).scope_known frame hf)

theorem erasedAlike_wrapper {w : Wrapper} (hk : node.kind = .wrapper w)
    (ih : ErasedAlike tree other d block node.children inner) :
    ErasedAlike tree other d block (node :: rest) (node.withChildren inner :: rest) := by
  intro scope within table table' last last' marks ht hs hne h h'
  obtain ⟨mid, hb, hr⟩ := h.of_wrapper hk
  obtain ⟨mid', hb', hr'⟩ := h'.of_wrapper hk
  refine ((ih ht hs hne hb hb').declares hsame hr hr').mono fun mark hl => ?_
  exact hl.after hr (hb.settled hs) hs.scope_known

theorem erasedAlike_type {kind : TypeKind} (hk : node.kind = .typeDeclaration kind)
    (hm : members node ≠ []) (ih : ErasedAlike tree other d block (members node) inner) :
    ErasedAlike tree other d block (node :: rest) (node.withBody inner :: rest) := by
  intro scope within table table' last last' marks ht hs hne h h'
  obtain ⟨t, parameters, mid, hread, hb, hr⟩ := h.of_type hk
  obtain ⟨t', parameters', mid', hread', hb', hr'⟩ := h'.of_type hk
  obtain ⟨rfl, hopened⟩ := ht.withType hsame hk inner hread hread'
  have hset := hs.withType tree node kind t' parameters
  rw [openMembers] at hb hb'
  rw [hopened.kindOf?, members_withBody hm] at hb'
  split at hb
  · -- The members of an enumeration are not looked at, on either side.
    rename_i henum
    rw [if_pos henum] at hb'
    cases hb
    cases hb'
    exact ⟨marks, fun _ => .inl, hopened.declares hsame hr hr'⟩
  · rename_i hopen
    rw [if_neg hopen] at hb'
    refine ((ih hopened hset hne hb hb').declares hsame hr hr').mono fun mark hl => ?_
    refine (hl.after hr (hb.settled hset) hset.scope_known).outward ?_ (fun _ => .inl) ?_
    · rw [Table.withType_frames]
      exact List.Subset.refl _
    · exact fun frame hf => hr.frames_subset ((hb.settled hset).scope_known frame hf)

theorem erasedAlike_file (hk : node.kind = .fileScopedNamespace)
    (hn : segmentsOf tree (node.withChildren inner) = segmentsOf tree node)
    (ih : ErasedAlike tree other d block node.children inner) :
    ErasedAlike tree other d block (node :: rest) (node.withChildren inner :: rest) := by
  intro scope within table table' last last' marks ht hs hne h h'
  obtain ⟨segments, mid, hread, hb, hr⟩ := h.of_file hk
  obtain ⟨segments', mid', hread', hb', hr'⟩ := h'.of_file hk
  rw [segmentsOf_same hsame, hn, hread] at hread'
  cases hread'
  obtain ⟨hscope, hopened⟩ := ht.withScope hsame segments scope
  rw [hscope] at hb' hr'
  have hset := hs.withScope tree segments
  have hmid := ih hopened hset (withScope_ne_nil hne) hb hb'
  refine (hmid.declares hsame hr hr').mono fun mark hl => ?_
  refine (hl.after hr (hb.settled hset) hset.scope_known).outward
    (withScope_frames_subset _ _ _ _) (fun _ => withScope_head_or hs.ranked) fun frame hf => ?_
  exact hr.frames_subset ((hb.settled hset).scope_known frame hf)

/-- A block with a name keeps the levels to itself that are opened inside. -/
theorem erasedAlike_block (hk : node.kind = .namespaceDeclaration) (hm : members node ≠ [])
    (ih : ErasedAlike tree other d block (members node) inner) :
    ErasedAlike tree other d (if isBlock tree node then some (block.getD node) else block)
      (node :: rest) (node.withBody inner :: rest) := by
  intro scope within table table' last last' marks ht hs hne h h'
  obtain ⟨segments, mid, hread, hb, hr⟩ := h.of_block hk
  obtain ⟨segments', mid', hread', hb', hr'⟩ := h'.of_block hk
  rw [segmentsOf_same hsame, segmentsOf_withBody, hread] at hread'
  cases hread'
  obtain ⟨hscope, hopened⟩ := ht.withScope hsame segments scope
  rw [hscope, members_withBody hm] at hb'
  have hset := hs.withScope tree segments
  have hafter : Settled mid scope := (hb.settled hset).suffix (withScope_suffix _ _ _ _)
  have hknown := withScope_frames_subset tree segments scope table
  have hmid := ih hopened hset (withScope_ne_nil hne) hb hb'
  refine (hmid.declares hsame hr hr').mono fun mark hl => ?_
  by_cases hsegments : segments = []
  · -- Without a name the block opens no level, so its directives are those of the level around it.
    subst hsegments
    have hblock : isBlock tree node = false := by simp [isBlock, hk, hread, Except.toOption]
    rw [hblock]
    exact hl.after hr hafter hs.scope_known
  · have hblock : isBlock tree node = true := by
      simp [isBlock, hk, hread, Except.toOption, hsegments]
    rw [hblock, if_pos rfl]
    cases block with
    | some b =>
      -- A block further inside has kept the levels to itself already.
      refine (hl.after hr hafter fun frame hf => hknown (hs.scope_known frame hf)).outward hknown
        (fun _ => withScope_head_or hs.ranked) fun frame hf => ?_
      exact hr.frames_subset ((hb.settled hset).scope_known frame hf)
    | none =>
      -- Every name that sees a new level stands among the members, and none does later.
      have hadds : AddsInside tree (members node) (Table.withScope tree segments scope table).1 []
          table mid := by
        have hstep : AddsInside tree (members node) (Table.withScope tree segments scope table).1 []
            table (Table.withScope tree segments scope table).2 := .of_eq (by simp) (by simp)
        exact hstep.trans (hb.addsInside hset (List.nil_subset _))
      have hregion : ∀ n ∈ Node.preorders (members node), Within tree (some node) ⟨tree, n⟩ := by
        refine fun n hn => ⟨rfl, fun b hb => ?_⟩
        cases hb
        rw [Node.preorder_eq]
        exact List.mem_cons_of_mem _ ((preorders_members node).subset hn)
      obtain ⟨hfresh, hin, hseen⟩ := hl.seen hs hknown
        (fun _ => withScope_head hs.ranked tree hsegments scope) (hb.settled hset).scope_known hadds
        hregion
      refine .inr ⟨hfresh, hr.frames_subset hin, fun _ => ?_⟩
      refine hseen.later (hr.addsInside hafter (List.Subset.refl _)) hin fun frame hf => ?_
      rintro rfl
      exact hfresh (hs.scope_known frame hf)

/-- **Without a directive, a run comes to a table that corresponds.** -/
theorem Erases.alike (hd : d.kind = .usingDirective) (hg : d.hasChild .globalToken = false)
    {nodes nodes' : List Node} (he : Erases tree d block nodes nodes') :
    ErasedAlike tree other d block nodes nodes' := by
  induction he with
  | here => exact erasedAlike_here hsame hd hg
  | later _ ih => exact erasedAlike_later hsame ih
  | @inside block node rest inner he hn ih =>
    have hne := he.ne_nil
    have hfile : node.kind ≠ .namespaceDeclaration → isBlock tree node = false := by
      intro hk
      simp [isBlock, hk]
    cases hk : node.kind with
    | wrapper w =>
      rw [entered, hk] at ih
      rw [hfile (by rw [hk]; exact Kind.noConfusion), withEntered, hk]
      exact erasedAlike_wrapper hsame hk ih
    | fileScopedNamespace =>
      rw [entered, hk] at ih
      rw [hfile (by rw [hk]; exact Kind.noConfusion), withEntered, hk]
      exact erasedAlike_file hsame hk (hn hk) ih
    | namespaceDeclaration =>
      rw [entered, hk] at ih hne
      rw [withEntered, hk]
      exact erasedAlike_block hsame hk hne ih
    | typeDeclaration kind =>
      rw [entered, hk] at ih hne
      rw [hfile (by rw [hk]; exact Kind.noConfusion), withEntered, hk]
      exact erasedAlike_type hsame hk hne ih
    | _ =>
      rw [entered, hk] at hne
      exact absurd rfl hne

end

/-! ## Runs over trees -/

/-- These levels are known, and seen from a region only. -/
def Enclosed (region : Site → Prop) (marks : Mark → Prop) (table : Table) : Prop :=
  ∀ mark, marks mark → mark ∈ table.frames ∧ SeenOnlyFrom region mark table

section

variable {tree : SourceTree} {marks : Mark → Prop} {table table' last last' : Table}

theorem Settled.withFrame (hs : Settled table []) (tree : SourceTree) :
    Settled (table.withFrame tree .global true).2 [(table.withFrame tree .global true).1] := by
  obtain ⟨registered, ha⟩ := hs
  exact ⟨_, ha.withFrame tree .global true fun _ => ⟨rfl, rfl⟩⟩

/-- Levels that are known are not seen from trees that are declared later. -/
theorem Enclosed.declaresTree {region : Site → Prop} (h : Enclosed region marks table)
    (hs : Settled table []) (ht : DeclaresTree tree table last) : Enclosed region marks last := by
  intro mark hm
  obtain ⟨hin, hseen⟩ := h mark hm
  have hknown : table.frames ⊆ (table.withFrame tree .global true).2.frames :=
    List.subset_append_left _ _
  have hstart : SeenOnlyFrom region mark (table.withFrame tree .global true).2 :=
    ⟨hseen.bases, hseen.attributes⟩
  refine ⟨Declares.frames_subset ht (hknown hin), ?_⟩
  refine hstart.later (Declares.addsInside ht (hs.withFrame tree) hknown) hin ?_
  refine List.forall_mem_singleton.mpr ?_
  rintro rfl
  exact hs.ranked.fresh tree.id hin

theorem Twin.declaresTree {lost : Using → Prop} (h : Twin unmoved lost table table')
    (ht : DeclaresTree tree table last) (ht' : DeclaresTree tree table' last') :
    Twin unmoved lost last last' := by
  have hsame : SameText tree tree := ⟨rfl, rfl⟩
  obtain ⟨hframe, hopened⟩ := h.withFrame hsame .global true
  rw [DeclaresTree, hframe] at ht'
  exact hopened.declares hsame ht ht'

variable {d : Node} (hd : d.kind = .usingDirective) (hg : d.hasChild .globalToken = false)
  {block : Option Node} {nodes : List Node} (he : Erases tree d block tree.root.children nodes)

include hd hg he

/-- A directive that is taken out of a tree is lost from levels inside of its block or file. -/
theorem Twin.declaresTree_erased (h : Twin unmoved (LostFrom tree d marks) table table')
    (hs : Settled table []) (hm : Enclosed (Within tree block) marks table)
    (ht : DeclaresTree tree table last) (ht' : DeclaresTree (tree.withNodes nodes) table' last') :
    ∃ marks', Enclosed (Within tree block) marks' last ∧
      Twin unmoved (LostFrom tree d marks') last last' := by
  have hsame : SameText tree (tree.withNodes nodes) := ⟨rfl, rfl⟩
  have hset := hs.withFrame tree
  obtain ⟨hframe, hopened⟩ := h.withFrame hsame .global true
  rw [DeclaresTree, hframe] at ht'
  obtain ⟨marks', hnew, hlast⟩ :=
    he.alike hsame hd hg hopened hset (List.cons_ne_nil _ _) ht ht'
  refine ⟨marks', fun mark hmark => ?_, hlast⟩
  rcases hnew mark hmark with hold | hl
  · exact hm.declaresTree hs ht mark hold
  · cases block with
    | some b =>
      rcases hl with ⟨hb, _⟩ | ⟨_, hin, hseen⟩
      · cases hb
      · exact ⟨hin, hseen (Option.some_ne_none b)⟩
    | none =>
      have hstep : AddsInside tree tree.root.children [(table.withFrame tree .global true).1] []
          table (table.withFrame tree .global true).2 := .of_eq rfl rfl
      refine (hl.seen hs (List.subset_append_left _ _) ?_
        (fun frame hf => Declares.frames_subset ht (hset.scope_known frame hf))
        (hstep.trans (Declares.addsInside ht hset (List.nil_subset _)))
        fun n hn => ⟨rfl, fun b hb => by cases hb⟩).2
      intro frame hf
      cases hf
      exact hs.ranked.fresh tree.id

/-- **Without one of its directives, a compilation has a table that corresponds.** The directive is
lost from levels that are seen from its block or file only. -/
theorem Twin.declaresTrees_erased {trees others : List SourceTree}
    (ho : List.Forall₂ (fun t t' => t' = t ∨ t = tree ∧ t' = tree.withNodes nodes) trees others) :
    ∀ {table table' : Table} {marks : Mark → Prop},
      Twin unmoved (LostFrom tree d marks) table table' → Settled table [] →
      Enclosed (Within tree block) marks table → DeclaresTrees trees table last →
      DeclaresTrees others table' last' →
      ∃ marks', Enclosed (Within tree block) marks' last ∧
        Twin unmoved (LostFrom tree d marks') last last' := by
  -- The levels that have lost the directive so far are carried from tree to tree.
  induction ho with
  | nil =>
    intro table table' marks h hs hm hrun hrun'
    cases hrun
    cases hrun'
    exact ⟨marks, hm, h⟩
  | @cons t t' trees others ht _ ih =>
    intro table table' marks h hs hm hrun hrun'
    cases hrun with
    | @cons _ _ _ mid _ hfirst hrest =>
    cases hrun' with
    | @cons _ _ _ mid' _ hfirst' hrest' =>
    have hmid := hfirst.settled hs
    rcases ht with rfl | ⟨rfl, rfl⟩
    · exact ih (h.declaresTree hfirst hfirst') hmid (hm.declaresTree hs hfirst) hrest hrest'
    · obtain ⟨marks', hm', hnext⟩ := h.declaresTree_erased hd hg he hs hm hfirst hfirst'
      exact ih hnext hmid hm' hrest hrest'

end

end PrintGen.Symbols
