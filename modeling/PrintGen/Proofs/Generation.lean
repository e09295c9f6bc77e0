import PrintGen.Proofs.Grouping
import PrintGen.Proofs.Resolution
import PrintGen.Generate

/-!
# What a generation pass returns

A pass has three stages that can fail on their own: scanning, building the model, and reading the
signatures of stubs. Once these have succeeded, the fragments are known: the marker, one per
top-level type with marked fields, one per top-level type with a stub. The pass returns them
exactly if their keys are distinct.
-/

namespace PrintGen

open Syntax Symbols
open Text.CodeText (ofString)

/-! ## The fragments -/

/-- The fragment that defines the marker. -/
def Marker.fragment : Fragment :=
  ⟨Marker.metadataName, ofString Marker.source⟩

/-- The fragment with the print methods of a top-level type. -/
def methodsFragment (s : Settings) (m : Model) (stem : String) (t : TypePath)
    (names : List String) : Fragment :=
  ⟨fragmentKey stem methodsSuffix, Render.printMethods (ofString (m.header t).text)
    (names.map ofString) (ofString t.home.display) s.methodPrefix.asText (ofString s.commentLine)⟩

/-- The fragment that implements the stub of a top-level type. -/
def stubFragment (s : Settings) (m : Model) (stem : String) (g : StubGroup TypePath) : Fragment :=
  ⟨fragmentKey stem g.methodName, Render.printAll (ofString (m.header g.owner).text)
    (ofString g.signature) (g.fieldNames.map ofString) (ofString g.owner.home.display)
    (ofString s.commentLine)⟩

theorem Render.fragment_nonempty (body home comment : Text.CodeText) :
    (Render.fragment body home comment).isEmpty = false := by
  have husing : ofString "using System;\n\n" ≠ [] := by
    rw [ofString, ne_eq, List.map_eq_nil_iff]
    decide
  rw [Render.fragment, List.isEmpty_eq_false_iff]
  exact List.append_ne_nil_of_left_ne_nil (List.append_ne_nil_of_right_ne_nil _ husing) _

theorem header_path (m : Model) (t : TypePath) : (m.header t).path = t := by
  rw [Model.header]
  split <;> rfl

/-! ## Registering one after the other -/

/-- What is to be settled for a type: its fragment, if it gets one, and what to report if not. -/
abbrev Item := Option Fragment × Diagnostic

/-- The outcome of settling one item. -/
def settled (s : Settings) (done : Generated) (item : Item) : Except Fault Generated :=
  match item.1 with
  | some f =>
    if f.text.isEmpty then .error (.emptyFragment f.key)
    else if done.fragments.any fun other => other.key = f.key then .error (.duplicateKey f.key)
    else .ok { done with fragments := done.fragments ++ [f] }
  | none =>
    .ok (if s.reportNested.truthy then
      { done with diagnostics := done.diagnostics ++ [item.2] } else done)

theorem register_gives (fragments : List Fragment) (key : String) (text : Text.CodeText) :
    Traced.Gives (register fragments key (some text))
      (if text.isEmpty then .error (.emptyFragment key)
      else if fragments.any fun other => other.key = key then .error (.duplicateKey key)
      else .ok (fragments ++ [⟨key, text⟩])) := by
  simp only [register]
  split
  · exact Gives.throw _
  · split
    · exact Gives.throw _
    · exact Gives.after (report_gives _ _ _) (Gives.pure _)

theorem settle_gives (s : Settings) (done : Generated) (item : Item) :
    Traced.Gives (settle s done item.1 item.2) (settled s done item) := by
  obtain ⟨fragment, diagnostic⟩ := item
  cases fragment with
  | none => exact Gives.after (report_gives _ _ _) (Gives.pure _)
  | some f =>
    have hreg := register_gives done.fragments f.key f.text
    simp only [settle, settled]
    split
    · rename_i h
      rw [if_pos h] at hreg
      exact hreg.bind (w := fun _ => .error (.emptyFragment f.key)) fun _ he => by cases he
    · rename_i h
      rw [if_neg h] at hreg
      split
      · rename_i hk
        rw [if_pos hk] at hreg
        exact hreg.bind (w := fun _ => .error (.duplicateKey f.key)) fun _ he => by cases he
      · rename_i hk
        rw [if_neg hk] at hreg
        exact Gives.after hreg (Gives.pure _)

/-- The diagnostics of the items without a fragment. -/
def skipped (s : Settings) (items : List Item) : List Diagnostic :=
  if s.reportNested.truthy then (items.filter fun item => item.1.isNone).map Prod.snd else []

/-- The fragments of the items that have one. -/
def fragmentsIn (items : List Item) : List Fragment :=
  items.filterMap Prod.fst

theorem fragmentsIn_cons_some (f : Fragment) (diagnostic : Diagnostic) (rest : List Item) :
    fragmentsIn ((some f, diagnostic) :: rest) = f :: fragmentsIn rest :=
  rfl

/-- A fragment is registered if its key is new. -/
theorem settled_fragment (s : Settings) (done : Generated) {f : Fragment} (diagnostic : Diagnostic)
    (hf : f.text.isEmpty = false) :
    settled s done (some f, diagnostic) =
      if f.key ∈ done.keys then .error (.duplicateKey f.key)
      else .ok { done with fragments := done.fragments ++ [f] } := by
  simp [settled, hf, Generated.keys]

/-- **Items are settled as long as no key is used twice.** -/
theorem settleAll_ok (s : Settings) (items : List Item)
    (hne : ∀ f ∈ fragmentsIn items, f.text.isEmpty = false) (done : Generated)
    (hd : ((done.fragments ++ fragmentsIn items).map Fragment.key).Nodup) :
    items.foldlM (settled s) done =
      .ok ⟨done.fragments ++ fragmentsIn items, done.diagnostics ++ skipped s items⟩ := by
  induction items generalizing done with
  | nil => simp [fragmentsIn, skipped, pure, Except.pure]
  | cons item rest ih =>
    obtain ⟨fragment, diagnostic⟩ := item
    rw [List.foldlM_cons]
    cases fragment with
    | none =>
      simp only [settled, bind, Except.bind]
      rw [ih hne _ (by split <;> exact hd)]
      by_cases hr : s.reportNested.truthy = true
      · simp [hr, fragmentsIn, skipped]
      · simp [hr, fragmentsIn, skipped]
    | some f =>
      rw [fragmentsIn_cons_some] at hne hd ⊢
      obtain ⟨hf, hrest⟩ := List.forall_mem_cons.mp hne
      have hnew : f.key ∉ done.keys := by
        intro hmem
        rw [List.map_append, List.map_cons] at hd
        exact (List.nodup_append.mp hd).2.2 _ hmem _ List.mem_cons_self rfl
      rw [List.append_cons] at hd ⊢
      rw [settled_fragment s done diagnostic hf, if_neg hnew, except_ok_bind, ih hrest _ hd]
      simp [skipped]

/-- **A key that is used twice stops the run, and nothing else does.** -/
theorem settleAll_error (s : Settings) (items : List Item)
    (hne : ∀ f ∈ fragmentsIn items, f.text.isEmpty = false) (done : Generated)
    (hold : done.keys.Nodup)
    (hd : ¬ ((done.fragments ++ fragmentsIn items).map Fragment.key).Nodup) :
    ∃ key, items.foldlM (settled s) done = .error (.duplicateKey key) := by
  induction items generalizing done with
  | nil =>
    rw [fragmentsIn, List.filterMap_nil, List.append_nil] at hd
    exact absurd hold hd
  | cons item rest ih =>
    obtain ⟨fragment, diagnostic⟩ := item
    rw [List.foldlM_cons]
    cases fragment with
    | none =>
      simp only [settled, bind, Except.bind]
      exact ih hne _ (by split <;> exact hold) (by split <;> exact hd)
    | some f =>
      rw [fragmentsIn_cons_some] at hne hd
      obtain ⟨hf, hrest⟩ := List.forall_mem_cons.mp hne
      rw [List.append_cons] at hd
      rw [settled_fragment s done diagnostic hf]
      by_cases hk : f.key ∈ done.keys
      · rw [if_pos hk]
        exact ⟨f.key, rfl⟩
      · rw [if_neg hk, except_ok_bind]
        refine ih hrest _ ?_ hd
        rw [Generated.keys, List.map_append]
        exact hold.append (List.nodup_singleton _) (List.disjoint_singleton.mpr hk)

/-! ## The stages of a pass -/

/-- What the stages before registering have found: the candidates, the marked fields among them and
the groups of stubs. -/
structure Stages (s : Settings) (trees : List SourceTree) (r : Resolver) (candidates : Candidates)
    (fields : List (ResolvedField TypePath)) (stubs : List (StubGroup TypePath)) : Prop where
  scanned : scan trees s.stubName.string? = .ok candidates
  resolver : Traced.Gives (Resolver.ofTrees trees) (.ok r)
  marked : Traced.Gives (r.resolveFields candidates.fields) (.ok fields)
  stubs : Traced.Gives (r.resolveStubs candidates.stubs) (.ok stubs)

/-- The types that get fragments, with repetitions. -/
def fragmentTypes (fields : List (ResolvedField TypePath)) (stubs : List (StubGroup TypePath)) :
    List TypePath :=
  (groupOwners fields ++ stubs.map StubGroup.owner).filter TypePath.isTopLevel

/-- The stem of a type in a pass. -/
def stemOf (fields : List (ResolvedField TypePath)) (stubs : List (StubGroup TypePath))
    (t : TypePath) : String :=
  stemAmong TypePath.name TypePath.metadataName (fragmentTypes fields stubs) t

/-- The fragments that come after the marker. -/
def typeFragments (s : Settings) (m : Model) (fields : List (ResolvedField TypePath))
    (stubs : List (StubGroup TypePath)) : List Fragment :=
  ((groupOwners fields).filter TypePath.isTopLevel).map (fun t =>
    methodsFragment s m (stemOf fields stubs t) t ((groupOf fields t).map ResolvedField.name)) ++
  (stubs.filter fun g => g.owner.isTopLevel).map fun g =>
    stubFragment s m (stemOf fields stubs g.owner) g

/-- The item for the marked fields of a type. -/
def fieldsItem (s : Settings) (m : Model) (stem : TypePath → String)
    (group : TypePath × List (ResolvedField TypePath)) : Item :=
  (if group.1.isTopLevel then
      some (methodsFragment s m (stem group.1) group.1 (group.2.map ResolvedField.name))
    else none,
    .nestedType group.1 (m.declarationsOf group.1) "Printable methods" none)

/-- The item for the stub of a type. -/
def stubItem (s : Settings) (m : Model) (stem : TypePath → String) (g : StubGroup TypePath) :
    Item :=
  (if g.owner.isTopLevel then some (stubFragment s m (stem g.owner) g) else none,
    .nestedType g.owner (m.declarationsOf g.owner) (g.methodName ++ "()") g.site)

/-- Everything that a pass has to settle, the groups of fields before the stubs. -/
def itemsOf (s : Settings) (m : Model) (fields : List (ResolvedField TypePath))
    (stubs : List (StubGroup TypePath)) : List Item :=
  (groupByOwner fields).map (fieldsItem s m (stemOf fields stubs)) ++
    stubs.map (stubItem s m (stemOf fields stubs))

theorem filterMap_ite {α β : Type} (p : α → Bool) (f : α → β) (as : List α) :
    as.filterMap (fun a => if p a then some (f a) else none) = (as.filter p).map f := by
  induction as with
  | nil => rfl
  | cons a rest ih =>
    cases h : p a with
    | true => rw [List.filterMap_cons_some (by rw [if_pos h]), List.filter_cons_of_pos h,
        List.map_cons, ih]
    | false => rw [List.filterMap_cons_none (by rw [if_neg (by simp [h])]),
        List.filter_cons_of_neg (by simp [h]), ih]

theorem fragmentsIn_itemsOf (s : Settings) (m : Model) (fields : List (ResolvedField TypePath))
    (stubs : List (StubGroup TypePath)) :
    fragmentsIn (itemsOf s m fields stubs) = typeFragments s m fields stubs := by
  have hfields := filterMap_ite TypePath.isTopLevel (fun t =>
    methodsFragment s m (stemOf fields stubs t) t ((groupOf fields t).map ResolvedField.name))
      (groupOwners fields)
  have hstubs := filterMap_ite (fun g : StubGroup TypePath => g.owner.isTopLevel) (fun g =>
    stubFragment s m (stemOf fields stubs g.owner) g) stubs
  rw [fragmentsIn, itemsOf, typeFragments, List.filterMap_append, List.filterMap_map,
    List.filterMap_map, groupByOwner_eq, List.filterMap_map, ← hfields, ← hstubs]
  rfl

theorem typeFragments_nonempty {s : Settings} {m : Model} {fields : List (ResolvedField TypePath)}
    {stubs : List (StubGroup TypePath)} :
    ∀ f ∈ typeFragments s m fields stubs, f.text.isEmpty = false := by
  intro f hf
  rcases List.mem_append.mp hf with hm | hs
  · obtain ⟨t, _, rfl⟩ := List.mem_map.mp hm
    exact Render.fragment_nonempty _ _ _
  · obtain ⟨g, _, rfl⟩ := List.mem_map.mp hs
    exact Render.fragment_nonempty _ _ _

theorem settleFields_gives (s : Settings) (m : Model) (stem : TypePath → String)
    (stems : List (TypePath × String)) (done : Generated)
    (group : TypePath × List (ResolvedField TypePath))
    (hstems : stems.lookup group.1 = if group.1.isTopLevel then some (stem group.1) else none) :
    Traced.Gives (settleFields s m stems done group)
      (settled s done (fieldsItem s m stem group)) := by
  have hitem : (stems.lookup group.1).bind (fun stem => s.emitMethods (m.header group.1)
      (group.2.map ResolvedField.name) (fragmentKey stem methodsSuffix)) =
      (fieldsItem s m stem group).1 := by
    rw [hstems, fieldsItem]
    cases h : group.1.isTopLevel with
    | false => rfl
    | true =>
      simp only [if_true, Option.bind_some, Settings.emitMethods, header_path, h, methodsFragment]
  have h := settle_gives s done (fieldsItem s m stem group)
  rw [← hitem] at h
  exact h

theorem settleStub_gives (s : Settings) (m : Model) (stem : TypePath → String)
    (stems : List (TypePath × String)) (done : Generated) (g : StubGroup TypePath)
    (hstems : stems.lookup g.owner = if g.owner.isTopLevel then some (stem g.owner) else none) :
    Traced.Gives (settleStub s m stems done g) (settled s done (stubItem s m stem g)) := by
  have hitem : (stems.lookup g.owner).bind (fun stem => s.emitStub (m.header g.owner) g
      (fragmentKey stem g.methodName)) = (stubItem s m stem g).1 := by
    rw [hstems, stubItem]
    cases h : g.owner.isTopLevel with
    | false => rfl
    | true =>
      simp only [if_true, Option.bind_some, Settings.emitStub, header_path, h, stubFragment]
  have h := settle_gives s done (stubItem s m stem g)
  rw [← hitem] at h
  exact h

theorem register_first (key : String) {text : Text.CodeText} (h : text.isEmpty = false) :
    Traced.Gives (register [] key (some text)) (.ok [⟨key, text⟩]) := by
  have hreg := register_gives [] key text
  rw [h] at hreg
  exact hreg

theorem Marker.source_nonempty : (ofString Marker.source).isEmpty = false := by
  have hfirst : "using System;\n\nnamespace PrintableFields\n\x7b\n".toList ≠ [] := by
    decide
  rw [ofString, List.isEmpty_map, List.isEmpty_eq_false_iff]
  intro he
  exact List.append_ne_nil_of_left_ne_nil hfirst _ (Marker.source_toList.symm.trans he)

theorem Marker.fragment_nonempty : Marker.fragment.text.isEmpty = false := by
  have h : ∀ key text, (Fragment.mk key text).text = text := fun _ _ => rfl
  rw [Marker.fragment, h]
  exact Marker.source_nonempty

/-- The marked fields that the candidates lead to. -/
def Resolver.markedAmong (r : Resolver) (candidates : List Candidate) :
    List (ResolvedField TypePath) :=
  ((candidates.flatMap fun c => r.model.declaredFields (c.tree.key c.node)).filter
    r.isMarked).map confirmed

/-- The outcome of a pass. -/
def generated (s : Settings) (trees : List SourceTree) : Except Fault Generated := do
  let candidates ← scan trees s.stubName.string?
  let r ← Resolver.found trees
  let stubs ← (r.firstStubs [] candidates.stubs).mapM fun stub => r.stubGroup stub.1 stub.2
  (itemsOf s r.model (r.markedAmong candidates.fields) stubs).foldlM (settled s)
    ⟨[Marker.fragment], []⟩

/-- **What a pass comes to does not depend on the records made before.** -/
theorem generate_gives (s : Settings) (trees : List SourceTree) :
    Traced.Gives (generate s trees) (generated s trees) := by
  refine Gives.bind (Traced.ofExcept_gives _) fun candidates _ => ?_
  refine Gives.after (report_gives _ _ _) ?_
  refine Gives.bind (Resolver.ofTrees_gives trees) fun r _ => ?_
  refine Gives.after (r.resolveFields_gives candidates.fields) ?_
  refine Gives.bind (r.stubGroups_gives [] candidates.stubs) fun stubs _ => ?_
  refine Gives.after (register_first _ Marker.source_nonempty) ?_
  change Traced.Gives _ ((itemsOf s r.model (r.markedAmong candidates.fields) stubs).foldlM
    (settled s) ⟨[Marker.fragment], []⟩)
  simp only [itemsOf, List.foldlM_append, List.foldlM_map]
  -- Every type that comes up was handed in when the stems were dealt out.
  have hlookup : ∀ t, t ∈ groupOwners (r.markedAmong candidates.fields) ++
      stubs.map StubGroup.owner →
      (keyStems TypePath.name TypePath.metadataName
        ((((groupByOwner (r.markedAmong candidates.fields)).map Prod.fst ++
          stubs.map StubGroup.owner)).filter TypePath.isTopLevel)).lookup t =
      if t.isTopLevel then some (stemOf (r.markedAmong candidates.fields) stubs t) else none := by
    intro t ht
    rw [groupByOwner_owners, keyStems_lookup]
    cases h : t.isTopLevel with
    | false => rw [if_neg (by simp [h]), if_neg (by simp)]
    | true =>
      rw [if_pos (List.mem_filter.mpr ⟨ht, h⟩), if_pos rfl]
      rfl
  refine Gives.bind (Gives.foldlM ?_ _) fun done _ => ?_
  · intro done group hgroup
    apply settleFields_gives
    apply hlookup
    exact List.mem_append_left _ (mem_groupByOwner.mp hgroup).1
  · refine Gives.before (Gives.foldlM ?_ done) fun _ => report_gives _ _ _
    intro done g hg
    apply settleStub_gives
    exact hlookup g.owner (List.mem_append_right _ (List.mem_map_of_mem hg))

theorem generated_of_generate {s : Settings} {trees : List SourceTree} {g : Generated}
    {before after : Trace} (h : generate s trees before = .ok g after) :
    generated s trees = .ok g :=
  ((generate_gives s trees).eq_ok trivial h).1

/-- A pass whose outcome is no fault returns. -/
theorem generate_of_generated {s : Settings} {trees : List SourceTree}
    (h : (generated s trees).toOption.isSome = true) (before : Trace) :
    ∃ g after, generate s trees before = .ok g after := by
  have hgives := generate_gives s trees
  cases hg : generated s trees with
  | error fault =>
    rw [hg] at h
    cases h
  | ok g =>
    rw [hg] at hgives
    obtain ⟨after, hrun, _⟩ := hgives before trivial
    exact ⟨g, after, hrun⟩

/-- The fragments of a pass in order. -/
def allFragments (s : Settings) (m : Model) (fields : List (ResolvedField TypePath))
    (stubs : List (StubGroup TypePath)) : List Fragment :=
  Marker.fragment :: typeFragments s m fields stubs

theorem allFragments_nonempty {s : Settings} {m : Model} {fields : List (ResolvedField TypePath)}
    {stubs : List (StubGroup TypePath)} :
    ∀ f ∈ allFragments s m fields stubs, f.text.isEmpty = false := by
  intro f hf
  rcases List.mem_cons.mp hf with rfl | ht
  · exact Marker.fragment_nonempty
  · exact typeFragments_nonempty f ht

namespace Stages

variable {s : Settings} {trees : List SourceTree} {r : Resolver} {candidates : Candidates}
  {fields : List (ResolvedField TypePath)} {stubs : List (StubGroup TypePath)}

theorem found (h : Stages s trees r candidates fields stubs) : Resolver.found trees = .ok r :=
  Resolver.found_of_gives h.resolver

theorem fields_eq (h : Stages s trees r candidates fields stubs) :
    fields = r.markedAmong candidates.fields :=
  (Except.ok.inj (Gives.unique (s := []) trivial (r.resolveFields_gives _) h.marked)).symm

theorem signed (h : Stages s trees r candidates fields stubs) :
    (r.firstStubs [] candidates.stubs).mapM (fun stub => r.stubGroup stub.1 stub.2) = .ok stubs :=
  Gives.unique (s := []) trivial (r.stubGroups_gives [] _) h.stubs

theorem generated_eq (h : Stages s trees r candidates fields stubs) :
    generated s trees =
      (itemsOf s r.model fields stubs).foldlM (settled s) ⟨[Marker.fragment], []⟩ := by
  rw [generated, h.scanned, except_ok_bind, h.found, except_ok_bind, h.signed, except_ok_bind,
    h.fields_eq]

/-- With distinct keys, a pass returns all its fragments. -/
theorem returns (h : Stages s trees r candidates fields stubs)
    (hkeys : ((allFragments s r.model fields stubs).map Fragment.key).Nodup) :
    generated s trees = .ok ⟨allFragments s r.model fields stubs,
      skipped s (itemsOf s r.model fields stubs)⟩ := by
  rw [h.generated_eq, settleAll_ok]
  · rw [fragmentsIn_itemsOf]
    rfl
  · rw [fragmentsIn_itemsOf]
    exact typeFragments_nonempty
  · rw [fragmentsIn_itemsOf]
    exact hkeys

theorem outcome (h : Stages s trees r candidates fields stubs)
    (hkeys : ((allFragments s r.model fields stubs).map Fragment.key).Nodup) (before : Trace) :
    ∃ g after, generate s trees before = .ok g after ∧
      g.fragments = allFragments s r.model fields stubs ∧
      g.diagnostics = skipped s (itemsOf s r.model fields stubs) := by
  have hgives := generate_gives s trees
  rw [h.returns hkeys] at hgives
  obtain ⟨after, hrun, _⟩ := hgives before trivial
  exact ⟨_, after, hrun, rfl, rfl⟩

theorem runs (h : Stages s trees r candidates fields stubs)
    (hkeys : ((allFragments s r.model fields stubs).map Fragment.key).Nodup) (before : Trace) :
    ∃ g after, generate s trees before = .ok g after ∧
      g.fragments = allFragments s r.model fields stubs := by
  obtain ⟨g, after, hrun, hfragments, -⟩ := h.outcome hkeys before
  exact ⟨g, after, hrun, hfragments⟩

/-- A key that comes up twice stops a pass. -/
theorem stops (h : Stages s trees r candidates fields stubs)
    (hkeys : ¬ ((allFragments s r.model fields stubs).map Fragment.key).Nodup) :
    ∃ key, generated s trees = .error (.duplicateKey key) := by
  rw [h.generated_eq]
  apply settleAll_error
  · rw [fragmentsIn_itemsOf]
    exact typeFragments_nonempty
  · exact List.nodup_singleton _
  · rw [fragmentsIn_itemsOf]
    exact hkeys

end Stages

/-- A pass that returns went through all its stages and found no key used twice. -/
theorem generate_ok {s : Settings} {trees : List SourceTree} {g : Generated}
    {before after : Trace} (h : generate s trees before = .ok g after) :
    ∃ r candidates fields stubs, Stages s trees r candidates fields stubs ∧
      ((allFragments s r.model fields stubs).map Fragment.key).Nodup ∧
      g.fragments = allFragments s r.model fields stubs := by
  have hg := generated_of_generate h
  obtain ⟨candidates, hscan, hg'⟩ := except_bind_ok.mp hg
  obtain ⟨r, hr, hg''⟩ := except_bind_ok.mp hg'
  obtain ⟨stubs, hstubs, _⟩ := except_bind_ok.mp hg''
  have hstages : Stages s trees r candidates (r.markedAmong candidates.fields) stubs :=
    ⟨hscan, hr ▸ Resolver.ofTrees_gives trees, r.resolveFields_gives _,
      hstubs ▸ r.stubGroups_gives [] _⟩
  refine ⟨r, candidates, _, stubs, hstages, ?_⟩
  by_cases hkeys : ((allFragments s r.model (r.markedAmong candidates.fields) stubs).map
      Fragment.key).Nodup
  · rw [hstages.returns hkeys] at hg
    cases hg
    exact ⟨hkeys, rfl⟩
  · obtain ⟨key, he⟩ := hstages.stops hkeys
    rw [he] at hg
    cases hg

end PrintGen
