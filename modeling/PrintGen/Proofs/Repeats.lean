import PrintGen.Proofs.Replay
import PrintGen.Proofs.SiteViews
import PrintGen.Proofs.StoppedPass

/-!
# Passes that stop can be made again

However declaring a tree ends, it leaves a list of records of the tree. The same records are made
in any other table where they fit, and then the pass ends there in the same way: with the same value
or at the same fault. So a table that a fault left unfinished is known by its records like any other.
-/

namespace PrintGen

section

variable {ε σ α : Type}

/-- The state that a run leaves. -/
def stateOf : EStateM.Result ε σ α → σ
  | .ok _ s => s
  | .error _ s => s

/-- The same result with another state. -/
def moved (s : σ) : EStateM.Result ε σ α → EStateM.Result ε σ α
  | .ok a _ => .ok a s
  | .error e _ => .error e s

end

namespace Symbols

open Syntax

/-- What a step leaves in a table are these records of the tree, and wherever they fit it does the
same. -/
structure Repeated {α : Type} (tree : SourceTree) (within : Option TypePath) (x : Declare α)
    (table : Table) (es : List Event) : Prop where
  result : stateOf (x table) = table.after es
  sent : ∀ d ∈ declarationsIn es, d.tree = tree
  again : ∀ other, Fits tree within es table other → x other = moved (other.after es) (x table)

/-- A step leaves records of the tree, and can be made again wherever they fit. -/
def Repeats {α : Type} (tree : SourceTree) (within : Option TypePath) (x : Declare α) : Prop :=
  ∀ table, ∃ es, Repeated tree within x table es

namespace Repeats

variable {α β : Type} {tree : SourceTree} {within : Option TypePath}

theorem pure (a : α) : Repeats tree within (Pure.pure a : Declare α) :=
  fun _ => ⟨[], rfl, by simp [declarationsIn], fun _ _ => rfl⟩

theorem ofExcept (v : Except Fault α) : Repeats tree within (Declare.ofExcept v) := by
  cases v with
  | ok a => exact pure a
  | error e => exact fun _ => ⟨[], rfl, by simp [declarationsIn], fun _ _ => rfl⟩

/-- A step that makes one record, which is the same wherever the tree has the same marks. -/
theorem of_record {x : Declare α} {e : Table → Event}
    (hx : ∀ table, stateOf (x table) = table.record (e table))
    (hs : ∀ table d, (e table).declaration? = some d → d.tree = tree)
    (ha : ∀ table other, SameRanks tree table other →
      x other = moved (other.record (e table)) (x table)) : Repeats tree within x := by
  intro table
  refine ⟨[e table], hx table, fun d hd => ?_, fun other hf => ha table other hf.ranks⟩
  obtain ⟨e', he', hd'⟩ := List.mem_filterMap.mp hd
  rw [List.mem_singleton.mp he'] at hd'
  exact hs table d hd'

theorem bind {x : Declare α} {f : α → Declare β} (hx : Repeats tree within x)
    (hf : ∀ a, Repeats tree within (f a)) : Repeats tree within (x >>= f) := by
  intro table
  obtain ⟨es, hes⟩ := hx table
  cases hr : x table with
  | error e mid =>
    have hrun : (x >>= f) table = .error e mid := by
      simp only [Bind.bind, EStateM.bind, hr]
    refine ⟨es, by rw [hrun, ← hes.result, hr]; rfl, hes.sent, fun other hfits => ?_⟩
    have hagain := hes.again other hfits
    rw [hr] at hagain
    rw [hrun]
    simp only [Bind.bind, EStateM.bind, hagain, moved]
  | ok a mid =>
    obtain ⟨more, hmore⟩ := hf a mid
    have hmid : mid = table.after es := by rw [← hes.result, hr]; rfl
    have hrun : (x >>= f) table = f a mid := by
      simp only [Bind.bind, EStateM.bind, hr]
    refine ⟨es ++ more, ?_, ?_, fun other hfits => ?_⟩
    · rw [hrun, hmore.result, hmid, Table.after_append]
    · rw [declarationsIn_append]
      exact List.forall_mem_append.mpr ⟨hes.sent, hmore.sent⟩
    · have hagain := hes.again other hfits.left
      rw [hr] at hagain
      have hrest := hmore.again (other.after es) (hmid ▸ hfits.right)
      rw [hrun, Table.after_append, ← hrest]
      simp only [Bind.bind, EStateM.bind, hagain, moved]

theorem forM {f : α → Declare PUnit} (hf : ∀ a, Repeats tree within (f a)) (as : List α) :
    Repeats tree within (as.forM f) := by
  induction as with
  | nil => exact pure _
  | cons a rest ih =>
    rw [List.forM]
    exact bind (hf a) fun _ => ih

/-- What does not depend on the type around can be done inside any type. -/
theorem outside {x : Declare α} (h : Repeats tree none x) : Repeats tree within x := by
  intro table
  obtain ⟨es, hes⟩ := h table
  refine ⟨es, hes.result, hes.sent, fun other hf => hes.again other ⟨hf.ranks, hf.kinds, ?_⟩⟩
  exact fun t ht => by cases ht

end Repeats

section

variable (tree : SourceTree) (node : Node) (scope : Scope) (within : Option TypePath)

theorem openFrame_repeats (home : Namespace) (isFile : Bool) :
    Repeats tree within (openFrame tree home isFile) := by
  let opened (table : Table) : Event := .level ⟨tree.id, Table.rankIn tree.id table.frames⟩
  refine .of_record (e := opened) (fun _ => rfl) (fun _ _ hd => by cases hd) fun table other h => ?_
  have hsame : Table.rankIn tree.id other.frames = Table.rankIn tree.id table.frames := h.1.symm
  change EStateM.Result.ok (⟨⟨tree.id, Table.rankIn tree.id other.frames⟩, home, isFile⟩ : Frame)
    (other.record (opened other)) = _
  simp only [opened, hsame]
  rfl

theorem enterNamespace_repeats : Repeats tree within (enterNamespace tree node scope) := by
  rw [enterNamespace_eq]
  refine .bind (.ofExcept _) fun segments => ?_
  induction segments generalizing scope with
  | nil => exact .pure scope
  | cons s rest ih =>
    rw [enterSegments]
    refine .bind ?_ fun _ => .bind (openFrame_repeats tree within _ _) fun frame => ih (frame :: scope)
    exact .of_record (e := fun _ => .home (.child scope.home s.name)) (fun _ => rfl)
      (fun _ _ hd => by cases hd) fun _ _ _ => rfl

theorem declareUsing_repeats : Repeats tree within (declareUsing tree node scope) := by
  rw [declareUsing_eq]
  refine .bind (.ofExcept _) fun d => ?_
  cases d with
  | none => exact .pure _
  | some directive =>
    obtain ⟨aliasName, target⟩ := directive
    let added (table : Table) : Using :=
      ⟨⟨tree.id, Table.rankIn tree.id (table.usings.map Using.mark)⟩,
        if node.hasChild .globalToken then none else scope.head?.map Frame.mark, tree, target,
        aliasName, node.hasChild .staticToken⟩
    refine .of_record (e := fun table => .directive (added table)) (fun _ => rfl)
      (fun _ _ hd => by cases hd) fun table other h => ?_
    have hsame : added other = added table := by
      simp only [added, h.2]
    change EStateM.Result.ok PUnit.unit (other.record (.directive (added other))) = _
    rw [hsame]
    rfl

theorem addField_repeats (field : FieldEntry) : Repeats tree within (addField field) :=
  .of_record (e := fun _ => .storage [field]) (fun _ => rfl) (fun _ _ hd => by cases hd)
    fun _ _ _ => rfl

/-- The kind of the type around is the same wherever records fit. -/
theorem kindOf_repeats (t : TypePath) : Repeats tree (some t) (kindOf t) := by
  refine fun table => ⟨[], rfl, by simp [declarationsIn], fun other hf => ?_⟩
  have hkind : table.kindOf? t = other.kindOf? t := hf.around t rfl
  change EStateM.Result.ok (other.kindOf? t) other = .ok (table.kindOf? t) other
  rw [hkind]

theorem declareFields_repeats (owner : TypePath) :
    Repeats tree within (declareFields tree node scope owner) := by
  refine .bind (.ofExcept _) fun modifiers => .forM (fun declarator => ?_) _
  exact .bind (.ofExcept _) fun name => addField_repeats tree within _

theorem declareBackingField_repeats (owner : TypePath) :
    Repeats tree (some owner) (declareBackingField tree node owner) := by
  refine .bind (.ofExcept _) fun modifiers => .bind (kindOf_repeats tree owner) fun kind => ?_
  split
  · exact .bind (.ofExcept _) fun name => addField_repeats tree _ _
  · exact .pure _

theorem declareEventFields_repeats (owner : TypePath) :
    Repeats tree (some owner) (declareEventFields tree node owner) := by
  refine .bind (.ofExcept _) fun modifiers => .bind (kindOf_repeats tree owner) fun kind => ?_
  split
  · refine .forM (fun declarator => ?_) _
    exact .bind (.ofExcept _) fun name => addField_repeats tree _ _
  · exact .pure _

/-- A type declaration settles the kind of its type for what it contains. -/
theorem declareType_repeats {β : Type} (type : TypeKind) {inside : TypePath → Declare β}
    (h : ∀ t, Repeats tree (some t) (inside t)) : Repeats tree within
      (declareType tree node (node.typeKind?.getD type) scope within >>= inside) := by
  intro table
  cases hread : typeOf tree node scope within with
  | error fault =>
    have hstop : ∀ table, (declareType tree node (node.typeKind?.getD type) scope within >>=
        inside) table = .error fault table := by
      intro table
      simp only [Bind.bind, EStateM.bind, declareType_stops hread]
    refine ⟨[], ?_, by simp [declarationsIn], fun other _ => ?_⟩
    · rw [hstop]
      rfl
    · rw [hstop, hstop]
      rfl
  | ok found =>
    obtain ⟨t, parameters⟩ := found
    let d : Declaration := ⟨tree, node, type, scope, t, parameters⟩
    have hrun : ∀ table, (declareType tree node (node.typeKind?.getD type) scope within >>=
        inside) table = inside t (table.record (.declaration d)) := by
      intro table
      have hfirst : declareType tree node (node.typeKind?.getD type) scope within table =
          .ok t (table.record (.declaration d)) := declareType_ok.mpr ⟨parameters, hread, rfl⟩
      simp only [Bind.bind, EStateM.bind, hfirst]
    obtain ⟨es, hes⟩ := h t (table.record (.declaration d))
    refine ⟨[.declaration d] ++ es, ?_, ?_, fun other hf => ?_⟩
    · rw [hrun, hes.result, Table.after_append]
      rfl
    · rw [declarationsIn_append]
      exact List.forall_mem_append.mpr ⟨by simp [declarationsIn, Event.declaration?, d], hes.sent⟩
    · have hkind : (table.kindOf? t).getD d.kind = (other.kindOf? t).getD d.kind :=
        hf.kinds d (by simp [declarationsIn, Event.declaration?])
      have hright := hf.right
      have hfits : Fits tree (some t) es (table.record (.declaration d))
          (other.record (.declaration d)) := by
        refine ⟨hright.ranks, hright.kinds, fun u hu => ?_⟩
        cases hu
        rw [Table.record_kindOf?, Table.record_kindOf?, if_pos rfl, if_pos rfl, hkind]
      rw [hrun, hrun, hes.again _ hfits, Table.after_append]
      rfl

end

mutual

theorem declareMember_repeats (tree : SourceTree) : ∀ (node : Node) (scope : Scope)
    (within : Option TypePath), Repeats tree within (declareMember tree scope within node)
  | .mk kind named missing start stop label children => by
    intro scope within
    have hstorage : ∀ {declare : TypePath → Declare PUnit},
        (∀ t, Repeats tree (some t) (declare t)) → Repeats tree within (within.forM declare) := by
      intro declare h
      cases within with
      | none => exact .pure _
      | some t => exact h t
    cases kind with
    | usingDirective => exact .bind (declareUsing_repeats tree _ _ _) fun _ => .pure scope
    | fieldDeclaration =>
      exact .bind (hstorage fun t => declareFields_repeats tree _ _ _ t) fun _ => .pure scope
    | propertyDeclaration =>
      exact .bind (hstorage fun t => declareBackingField_repeats tree _ t) fun _ => .pure scope
    | eventFieldDeclaration =>
      exact .bind (hstorage fun t => declareEventFields_repeats tree _ t) fun _ => .pure scope
    | namespaceDeclaration =>
      rw [declareMember]
      exact .bind (enterNamespace_repeats tree _ _ _) fun inner =>
        .bind (declareBody_repeats tree children inner none).outside fun _ => .pure scope
    | fileScopedNamespace =>
      rw [declareMember]
      exact .bind (enterNamespace_repeats tree _ _ _) fun inner =>
        .bind (declareMembers_repeats tree children inner none).outside fun _ => .pure inner
    | typeDeclaration type =>
      rw [declareMember]
      refine declareType_repeats tree _ _ _ type fun t => .bind (kindOf_repeats tree t)
        fun declared => ?_
      split
      · exact .bind (declareBody_repeats tree children scope (some t)) fun _ => .pure scope
      · exact .pure scope
    | wrapper w =>
      rw [declareMember]
      exact .bind (declareMembers_repeats tree children scope within) fun _ => .pure scope
    | _ =>
      simp only [declareMember]
      exact .pure scope

theorem declareMembers_repeats (tree : SourceTree) : ∀ (nodes : List Node) (scope : Scope)
    (within : Option TypePath), Repeats tree within (declareMembers tree scope within nodes)
  | [] => by
    intro scope within
    rw [declareMembers]
    exact .pure ()
  | node :: rest => by
    intro scope within
    rw [declareMembers]
    exact .bind (declareMember_repeats tree node scope within) fun inner =>
      declareMembers_repeats tree rest inner within

theorem declareBody_repeats (tree : SourceTree) : ∀ (children : List Node) (scope : Scope)
    (within : Option TypePath), Repeats tree within (declareBody tree scope within children)
  | [] => by
    intro scope within
    rw [declareBody]
    exact .pure ()
  | .mk kind named missing start stop label children :: rest => by
    intro scope within
    rw [declareBody]
    split
    · exact declareMembers_repeats tree children scope within
    · exact declareBody_repeats tree rest scope within

end

/-- **However declaring a tree ends, it ends in the same way wherever its records fit.** -/
theorem declareTree_repeats (tree : SourceTree) : Repeats tree none (declareTree tree) :=
  .bind (openFrame_repeats tree none .global true) fun frame =>
    declareMembers_repeats tree tree.root.children [frame] none

/-- Trees make the same records, and end in the same way, after tables with the same marks and
kinds. -/
theorem declareTrees_repeats (trees : List SourceTree) (table : Table) :
    ∃ es, stateOf (declareTrees trees table) = table.after es ∧
      (∀ d ∈ declarationsIn es, d.tree ∈ trees) ∧
      ∀ other, (∀ tree ∈ trees, SameRanks tree table other) → SameKinds es table other →
        declareTrees trees other = moved (other.after es) (declareTrees trees table) := by
  induction trees generalizing table with
  | nil => exact ⟨[], rfl, by simp [declarationsIn], fun _ _ _ => rfl⟩
  | cons tree rest ih =>
    obtain ⟨es, hes⟩ := declareTree_repeats tree table
    have hstep : ∀ table, declareTrees (tree :: rest) table =
        (declareTree tree >>= fun _ => declareTrees rest) table := fun _ => rfl
    cases hr : declareTree tree table with
    | error e mid =>
      have hrun : declareTrees (tree :: rest) table = .error e mid := by
        rw [hstep]
        simp only [Bind.bind, EStateM.bind, hr]
      refine ⟨es, by rw [hrun, ← hes.result, hr], fun d hd => ?_,
        fun other hranks hkinds => ?_⟩
      · rw [hes.sent d hd]
        exact List.mem_cons_self
      · have hagain := hes.again other ⟨hranks tree (by simp), hkinds, fun _ ht => by cases ht⟩
        rw [hr] at hagain
        rw [hrun, hstep]
        simp only [Bind.bind, EStateM.bind, hagain, moved]
    | ok u mid =>
      have hmid : mid = table.after es := by rw [← hes.result, hr]; rfl
      have hrun : declareTrees (tree :: rest) table = declareTrees rest mid := by
        rw [hstep]
        simp only [Bind.bind, EStateM.bind, hr]
      obtain ⟨more, hmore, hsent, hagainRest⟩ := ih mid
      refine ⟨es ++ more, ?_, ?_, fun other hranks hkinds => ?_⟩
      · rw [hrun, hmore, hmid, Table.after_append]
      · rw [declarationsIn_append]
        refine List.forall_mem_append.mpr ⟨fun d hd => ?_, fun d hd => ?_⟩
        · rw [hes.sent d hd]
          exact List.mem_cons_self
        · exact List.mem_cons_of_mem _ (hsent d hd)
      · have hagain := hes.again other ⟨hranks tree (by simp), hkinds.left, fun _ ht => by cases ht⟩
        rw [hr] at hagain
        have hrest := hagainRest (other.after es)
          (fun t ht => hmid ▸ (hranks t (by simp [ht])).after es) (hmid ▸ hkinds.right)
        rw [hrun, Table.after_append, ← hrest, hstep]
        simp only [Bind.bind, EStateM.bind, hagain, moved]

end Symbols

end PrintGen
