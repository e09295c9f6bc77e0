import PrintGen.Proofs.Containers
import PrintGen.Proofs.Scopes

/-!
# What an attribute can be bound to

Lookups only find types that exist and count. Found in a container, a type has the name and the
arity that were asked for; the one other way to a type is an alias, and aliases are only asked for a
name that stands alone. Nothing is assumed of the trees: this is about every run that returns.
-/

namespace PrintGen.Symbols

open Syntax

/-! ## What is found exists -/

section

variable {table : Table} {counts : TypePath → Bool} {s : Segment}

theorem type?_some {t u : TypePath} (h : table.type? t = some u) : u = t ∧ table.hasType t = true := by
  rw [Table.type?] at h
  split at h
  · rename_i ht
    exact ⟨(Option.some.inj h).symm, ht⟩
  · cases h

theorem memberType?_some {c : Entity} {t : TypePath} (h : table.memberType? c s = some t) :
    table.hasType t = true ∧ t.own = s := by
  rw [Table.memberType?_eq] at h
  obtain ⟨rfl, ht⟩ := type?_some h
  exact ⟨ht, Entity.member_own c s⟩

theorem descend?_some {c e : Entity} (h : table.descend? c s = some e) : table.has e = true := by
  have hmember : ∀ e, (table.memberType? c s).map Entity.ofType = some e → table.has e = true := by
    intro e he
    obtain ⟨t, ht, rfl⟩ := Option.map_eq_some_iff.mp he
    exact (memberType?_some ht).1
  cases c with
  | ofNamespace n =>
    rw [Table.descend?] at h
    split at h
    · rename_i hn
      cases h
      exact (Bool.and_eq_true_iff.mp hn).2
    · exact hmember e h
  | ofType t => exact hmember e h

/-- Following segments from something that exists leads to something that exists. -/
theorem descendAll?_some {start : Option Entity} {segments : List Segment} {e : Entity}
    (hs : ∀ c, start = some c → table.has c = true)
    (h : descendAll? table start segments = some e) : table.has e = true := by
  induction segments generalizing start with
  | nil => exact hs e h
  | cons s rest ih =>
    refine ih (fun c hc => ?_) h
    obtain ⟨d, _, hd⟩ := Option.bind_eq_some_iff.mp hc
    exact descend?_some hd

theorem target_some {scope : Scope} {u : Using} {e : Entity}
    (h : table.target scope u = some e) : table.has e = true := by
  rw [Table.target, usingTarget?] at h
  split at h
  · cases h
  · refine descendAll?_some (fun c hc => ?_) h
    split at hc
    · exact descend?_some hc
    · rcases Option.or_eq_some_iff.mp hc with hv | ⟨_, hg⟩
      · obtain ⟨frame, _, hd⟩ := List.exists_of_findSome?_eq_some hv
        exact descend?_some hd
      · exact descend?_some hg

theorem viable?_some {t : Option TypePath} {u : TypePath} (h : viable? counts t = some u) :
    t = some u ∧ counts u = true :=
  Option.filter_eq_some_iff.mp h

theorem entity_of_type? {e : Option Entity} {t : TypePath} (h : Entity.type? e = some t) :
    e = some (.ofType t) := by
  cases e with
  | none => cases h
  | some e =>
    cases e with
    | ofNamespace n => cases h
    | ofType u => rw [Option.some.inj h]

/-- A type that was found in a container. -/
structure Found (table : Table) (counts : TypePath → Bool) (s : Segment) (t : TypePath) : Prop where
  has : table.hasType t = true
  counts : counts t = true
  own : t.own = s

theorem Found.of_member {c : Entity} {t : TypePath}
    (h : viable? counts (table.memberType? c s) = some t) : Found table counts s t := by
  obtain ⟨hm, hc⟩ := viable?_some h
  obtain ⟨ht, ho⟩ := memberType?_some hm
  exact ⟨ht, hc, ho⟩

theorem Found.of_enclosed {around t : TypePath} (h : enclosed? table counts s around = some t) :
    Found table counts s t := by
  induction around with
  | top home own => exact .of_member h
  | nested outer own ih =>
    rcases Option.or_eq_some_iff.mp h with hm | ⟨_, hm⟩
    · exact .of_member hm
    · exact ih hm

theorem Found.of_imported {u : Using} {target : Option Entity} {t : TypePath}
    (h : viable? counts (imported? table s u target) = some t) : Found table counts s t := by
  obtain ⟨hm, hc⟩ := viable?_some h
  have hmember : ∃ c, table.memberType? c s = some t := by
    cases target with
    | none => cases hm
    | some e =>
      cases e with
      | ofNamespace n =>
        rw [imported?] at hm
        split at hm
        · cases hm
        · exact ⟨_, hm⟩
      | ofType outer =>
        rw [imported?] at hm
        split at hm
        · exact ⟨_, hm⟩
        · cases hm
  obtain ⟨c, hmem⟩ := hmember
  exact .of_member (by rw [hmem, viable?, Option.filter_eq_some_iff]; exact ⟨rfl, hc⟩)

end

/-! ## Lookups that return -/

/-- A name without type arguments is an alias, at some level of a scope, and the target of the
directive is the type. -/
def Aliased (table : Table) (s : Segment) (scope : Scope) (t : TypePath) : Prop :=
  s.arity = 0 ∧ ∃ frame outer, frame :: outer <:+ scope ∧ ∃ u ∈ table.usingsOf frame,
    u.aliasName = some s.name ∧ table.target (frame :: outer) u = some (.ofType t)

/-- What a name that stands alone can lead to. -/
structure Named (table : Table) (counts : TypePath → Bool) (s : Segment) (scope : Scope)
    (t : TypePath) : Prop where
  has : table.hasType t = true
  counts : counts t = true
  named : t.own = s ∨ Aliased table s scope t

theorem Found.named {table : Table} {counts : TypePath → Bool} {s : Segment} {t : TypePath}
    (h : Found table counts s t) (scope : Scope) : Named table counts s scope t :=
  ⟨h.has, h.counts, .inl h.own⟩

/-- What the directives of a level lead a name to: a type that one of them imports, or the target
of an alias. -/
inductive Supplied (table : Table) (counts : TypePath → Bool) (s : Segment) (frame : Frame)
    (outer : Scope) (t : TypePath) : Prop
  | imported {u : Using} (hu : u ∈ table.usingsOf frame) (hn : u.aliasName = none)
      (ht : viable? counts (imported? table s u (table.target (frame :: outer) u)) = some t)
  | aliased {u : Using} (hu : u ∈ table.usingsOf frame) (ha : s.arity = 0)
      (hn : u.aliasName = some s.name)
      (ht : table.target (frame :: outer) u = some (.ofType t)) (hc : counts t = true)

/-- Where a name that stands alone is found: in a type around its place, or at a level of its scope,
there in the namespace or through the directives. -/
inductive LeadsTo (table : Table) (counts : TypePath → Bool) (s : Segment) (scope : Scope)
    (within : Option TypePath) (t : TypePath) : Prop
  | enclosed {around : TypePath} (hw : within = some around)
      (ht : enclosed? table counts s around = some t)
  | member {frame : Frame} {outer : Scope} (hs : frame :: outer <:+ scope)
      (ht : viable? counts (table.memberType? (.ofNamespace frame.home) s) = some t)
  | supplied {frame : Frame} {outer : Scope} (hs : frame :: outer <:+ scope)
      (ht : Supplied table counts s frame outer t)

section

variable {table : Table} {counts : TypePath → Bool} {s : Segment} {scope : Scope}
  {within : Option TypePath} {t : TypePath}

theorem LeadsTo.outer {frame : Frame} (h : LeadsTo table counts s scope within t) :
    LeadsTo table counts s (frame :: scope) within t := by
  cases h with
  | enclosed hw ht => exact .enclosed hw ht
  | member hs ht => exact .member (hs.trans (List.suffix_cons _ _)) ht
  | supplied hs ht => exact .supplied (hs.trans (List.suffix_cons _ _)) ht

theorem LeadsTo.named (h : LeadsTo table counts s scope within t) :
    Named table counts s scope t := by
  cases h with
  | enclosed hw ht => exact (Found.of_enclosed ht).named scope
  | member hs ht => exact (Found.of_member ht).named scope
  | supplied hs ht =>
    cases ht with
    | imported hu hn ht => exact (Found.of_imported ht).named scope
    | aliased hu ha hn ht hc =>
      exact ⟨target_some ht, hc, .inr ⟨ha, _, _, hs, _, hu, hn, ht⟩⟩

end

section

variable {table : Table} {registered : Scope → Prop}

theorem note_yields (message : String) :
    Yields (Kept table registered) (note message) fun _ => True :=
  Yields.of_modify fun _ h => h

theorem Binding.ofExcept_yields {α : Type} (v : Except Fault α) :
    Yields (Kept table registered) (Binding.ofExcept v) fun a => v = .ok a := by
  cases v with
  | ok a => exact Yields.pure rfl
  | error e =>
    intro f _ a g hrun
    cases hrun

/-- A target that is returned is the target of the directive, kept or not. -/
theorem targetOf_yields (hc : Scoped table registered) {scope : Scope} {u : Using}
    (hs : Sees table registered scope u) :
    Yields (Kept table registered) (targetOf table scope u) fun target =>
      target = table.target scope u := by
  have hfresh : Yields (Kept table registered) (freshTarget table scope u)
      fun target => target = table.target scope u := by
    refine Yields.bind (Binding.ofExcept_yields _) fun name hname => ?_
    have hwritten : usingTarget? table scope name = table.target scope u := by
      rw [Table.target, SourceTree.written, hname]
    have hkeep : Yields (Kept table registered) (do
        modify fun f => { f with targets := f.targets ++ [(u.mark, table.target scope u)] }
        return table.target scope u : Binding (Option Entity))
        fun target => target = table.target scope u :=
      Yields.bind (Yields.of_modify fun f hf => hf.add hc hs f.trace) fun _ _ => Yields.pure rfl
    rw [hwritten, keepTarget]
    split
    · exact Yields.bind (Binding.ofExcept_yields _) fun _ _ =>
        Yields.bind (note_yields _) fun _ _ => hkeep
    · exact hkeep
  intro f hk target g hrun
  cases hl : f.targets.lookup u.mark with
  | some known =>
    rw [targetOf_known hl] at hrun
    obtain ⟨rfl, rfl⟩ := run_pure_ok.mp hrun
    exact ⟨hk u.mark known hl u hs.mem rfl scope hs, hk⟩
  | none =>
    rw [targetOf_unknown hl] at hrun
    exact hfresh f hk target g hrun

theorem firstTarget_yields (hc : Scoped table registered) (counts : TypePath → Bool)
    {scope : Scope} {us : List Using} (hs : ∀ u ∈ us, Sees table registered scope u) :
    Yields (Kept table registered) (firstTarget table counts scope us) fun found =>
      ∀ target, found = some target →
        aliasCounts counts target = true ∧ ∃ u ∈ us, table.target scope u = target := by
  induction us with
  | nil => exact Yields.pure (by simp)
  | cons u rest ih =>
    rw [firstTarget]
    refine Yields.bind (targetOf_yields hc (hs u (by simp))) fun target ht => ?_
    split
    · rename_i hcounts
      refine Yields.pure ?_
      rintro _ ⟨⟩
      exact ⟨hcounts, u, by simp, ht.symm⟩
    · refine (ih fun v hv => hs v (by simp [hv])).mono fun found hfound target' he => ?_
      obtain ⟨hcounts, v, hv, htarget⟩ := hfound target' he
      exact ⟨hcounts, v, by simp [hv], htarget⟩

theorem importedTypes_yields (hc : Scoped table registered) (counts : TypePath → Bool)
    (s : Segment) {P : TypePath → Prop} {scope : Scope} {us : List Using}
    (hs : ∀ u ∈ us, Sees table registered scope u)
    (hnew : ∀ u ∈ us, ∀ t,
      viable? counts (imported? table s u (table.target scope u)) = some t → P t)
    {before : List TypePath} (hb : ∀ t ∈ before, P t) :
    Yields (Kept table registered) (importedTypes table counts s scope us before) fun found =>
      ∀ t ∈ found, P t := by
  induction us generalizing before with
  | nil => exact Yields.pure hb
  | cons u rest ih =>
    obtain ⟨hu, hrest⟩ := List.forall_mem_cons.mp hs
    obtain ⟨hp, hothers⟩ := List.forall_mem_cons.mp hnew
    rw [importedTypes]
    refine Yields.bind (targetOf_yields hc hu) fun target htarget => ?_
    rw [htarget]
    split
    · rename_i t himported
      refine ih hrest hothers ?_
      split
      · exact hb
      · exact List.forall_mem_append.mpr ⟨hb, List.forall_mem_singleton.mpr (hp t himported)⟩
    · exact ih hrest hothers hb

/-- What the directives of one level decide. -/
theorem inUsings_yields (hc : Scoped table registered) (counts : TypePath → Bool) (s : Segment)
    {frame : Frame} {outer : Scope} (hr : registered (frame :: outer)) :
    Yields (Kept table registered) (inUsings table counts s (frame :: outer) frame) fun found =>
      ∀ t, found = some (some (.ofType t)) → Supplied table counts s frame outer t := by
  have hsees : ∀ p : Using → Bool, ∀ u ∈ (table.usingsOf frame).filter p,
      Sees table registered (frame :: outer) u :=
    fun p u hu => ⟨hr, frame, outer, rfl, (List.mem_filter.mp hu).1⟩
  have haliases : s.arity = 0 → Yields (Kept table registered)
      (firstTarget table counts (frame :: outer)
        ((table.usingsOf frame).filter fun u => u.aliasName = some s.name))
      fun found => ∀ t, found = some (some (.ofType t)) →
        Supplied table counts s frame outer t := by
    intro harity
    refine (firstTarget_yields hc counts (hsees _)).mono fun found hfound t ht => ?_
    obtain ⟨hcounts, u, hu, htarget⟩ := hfound _ ht
    obtain ⟨hmem, halias⟩ := List.mem_filter.mp hu
    exact .aliased hmem harity (of_decide_eq_true halias) htarget hcounts
  rw [inUsings]
  refine Yields.choose haliases (fun _ => Yields.pure (by simp)) fun aliased haliased => ?_
  cases aliased with
  | some target => exact Yields.pure haliased
  | none =>
    have himported : ∀ u ∈ (table.usingsOf frame).filter fun u => u.aliasName = none, ∀ t,
        viable? counts (imported? table s u (table.target (frame :: outer) u)) = some t →
        Supplied table counts s frame outer t := by
      intro u hu t ht
      obtain ⟨hmem, hnone⟩ := List.mem_filter.mp hu
      exact .imported hmem (of_decide_eq_true hnone) ht
    refine Yields.bind (importedTypes_yields hc counts s (hsees _) himported (by simp))
      fun found hfound => ?_
    split
    · exact Yields.pure (by simp)
    · rename_i t
      refine Yields.pure fun u hu => ?_
      cases hu
      exact hfound t (by simp)
    · exact Yields.bind (note_yields _) fun _ _ => Yields.pure (by simp)

theorem typeInScope_yields (hc : Scoped table registered) (counts : TypePath → Bool)
    (s : Segment) {scope : Scope} (hr : registered scope) (within : Option TypePath) :
    Yields (Kept table registered) (typeInScope table counts s scope) fun found =>
      ∀ t, found = some t → LeadsTo table counts s scope within t := by
  induction scope with
  | nil => exact Yields.pure (by simp)
  | cons frame outer ih =>
    rw [typeInScope]
    split
    · rename_i t hmember
      refine Yields.pure ?_
      rintro _ ⟨⟩
      exact .member (List.suffix_refl _) hmember
    · refine Yields.bind (inUsings_yields hc counts s hr) fun decided hdecided => ?_
      split
      · refine Yields.pure fun t he => .supplied (List.suffix_refl _) (hdecided t ?_)
        rw [entity_of_type? he]
      · exact (ih (hc.outer hr)).mono fun found hfound t he => (hfound t he).outer

/-- **A type that a name is looked up as is found around the place or at a level of the scope.** -/
theorem simpleType_yields (hc : Scoped table registered) (counts : TypePath → Bool)
    (s : Segment) {scope : Scope} (hr : registered scope) (within : Option TypePath) :
    Yields (Kept table registered) (simpleType table counts s scope within) fun found =>
      ∀ t, found = some t → LeadsTo table counts s scope within t := by
  rw [simpleType]
  split
  · rename_i t henclosed
    obtain ⟨around, hwithin, ht⟩ := Option.bind_eq_some_iff.mp henclosed
    refine Yields.pure ?_
    rintro _ ⟨⟩
    exact .enclosed hwithin ht
  · exact typeInScope_yields hc counts s hr within

/-! ### Qualifiers

What a qualifier stands for does not matter here; only the targets that were kept do. -/

theorem headInScope_yields (hc : Scoped table registered) (s : Segment) {scope : Scope}
    (hr : registered scope) :
    Yields (Kept table registered) (headInScope table s scope) fun _ => True := by
  induction scope with
  | nil => exact Yields.pure trivial
  | cons frame outer ih =>
    rw [headInScope]
    split
    · exact Yields.pure trivial
    · refine Yields.bind (inUsings_yields hc _ s hr) fun decided _ => ?_
      split
      · exact Yields.pure trivial
      · exact ih (hc.outer hr)

theorem aliasEntity_yields (hc : Scoped table registered) (aliasName : String) {scope : Scope}
    (hr : registered scope) :
    Yields (Kept table registered) (aliasEntity table aliasName scope) fun _ => True := by
  induction scope with
  | nil => exact Yields.pure trivial
  | cons frame outer ih =>
    rw [aliasEntity]
    split
    · rename_i u hu
      have hsees : Sees table registered (frame :: outer) u :=
        ⟨hr, frame, outer, rfl, List.mem_of_find?_eq_some hu⟩
      exact (targetOf_yields hc hsees).mono fun _ _ => trivial
    · exact ih (hc.outer hr)

theorem qualifierEntity_yields (hc : Scoped table registered) (aliasName : Option String)
    (qualifier : List Segment) {scope : Scope} (hr : registered scope)
    (within : Option TypePath) :
    Yields (Kept table registered) (qualifierEntity table aliasName qualifier scope within)
      fun _ => True := by
  cases aliasName with
  | some aliasName =>
    rw [qualifierEntity]
    split
    · exact Yields.bind (P := fun _ => True) (Yields.pure trivial) fun _ _ => Yields.pure trivial
    · exact Yields.bind (aliasEntity_yields hc aliasName hr) fun _ _ => Yields.pure trivial
  | none =>
    cases qualifier with
    | nil => exact Yields.pure trivial
    | cons head rest =>
      rw [qualifierEntity]
      refine Yields.bind (P := fun _ => True) ?_ fun _ _ => Yields.pure trivial
      rw [headEntity]
      split
      · exact Yields.pure trivial
      · exact headInScope_yields hc head hr

/-! ### Whole names -/

/-- What a name can lead to: its last segment names the type, or it stands alone and is an alias. -/
structure Reached (table : Table) (counts : TypePath → Bool) (aliasName : Option String)
    (qualifier : List Segment) (last : Segment) (scope : Scope) (t : TypePath) : Prop where
  has : table.hasType t = true
  counts : counts t = true
  named : t.own = last ∨ aliasName = none ∧ qualifier = [] ∧ Aliased table last scope t

theorem typeNamed_yields (hc : Scoped table registered) (counts : TypePath → Bool)
    (aliasName : Option String) (qualifier : List Segment) (last : Segment) {scope : Scope}
    (hr : registered scope) (within : Option TypePath) :
    Yields (Kept table registered) (typeNamed table counts aliasName qualifier last scope within)
      fun found => ∀ t, found = some t →
        Reached table counts aliasName qualifier last scope t := by
  rw [typeNamed]
  split
  · rename_i halone
    rw [Bool.and_eq_true, Option.isNone_iff_eq_none, List.isEmpty_iff] at halone
    refine (simpleType_yields hc counts last hr within).mono fun found hfound t he => ?_
    have hnamed := (hfound t he).named
    exact ⟨hnamed.has, hnamed.counts,
      hnamed.named.imp id fun haliased => ⟨halone.1, halone.2, haliased⟩⟩
  · refine Yields.bind (qualifierEntity_yields hc aliasName qualifier hr within)
      fun container _ => Yields.pure fun t he => ?_
    obtain ⟨hmember, hcounts⟩ := viable?_some he
    obtain ⟨c, _, hm⟩ := Option.bind_eq_some_iff.mp hmember
    obtain ⟨ht, ho⟩ := memberType?_some hm
    exact ⟨ht, hcounts, .inl ho⟩

theorem bindType_yields (hc : Scoped table registered) {r : Reference} (hr : registered r.scope) :
    Yields (Kept table registered) (bindType table r) fun _ => True := by
  rw [bindType]
  refine Yields.bind (Binding.ofExcept_yields _) fun name _ => ?_
  split
  · exact Yields.pure trivial
  · exact (typeNamed_yields hc _ _ _ _ hr _).mono fun _ _ => trivial

/-- The names under which the class of an attribute can be declared. -/
def Spells (written name : String) : Prop :=
  name = written ∨ name = written ++ "Attribute" ∨ written = "@" ++ name

theorem spells_of_mem {written name : String} (h : name ∈ attributeSpellings written) :
    Spells written name := by
  rw [attributeSpellings] at h
  split at h
  · rename_i rest hlist
    obtain rfl := List.mem_singleton.mp h
    have hrest : (String.ofList rest).toList = rest := String.toList_ofList
    refine .inr (.inr (String.toList_inj.mp ?_))
    rw [hlist, String.toList_append, hrest]
    rfl
  · rw [List.mem_pair] at h
    exact h.imp id .inl

/-- What the class of an attribute can be. Either its name is a spelling of the last segment and the
arities agree, or the attribute is a name that stands alone and a spelling of it is an alias. -/
structure Meant (table : Table) (counts : TypePath → Bool) (r : Reference) (t : TypePath) :
    Prop where
  has : table.hasType t = true
  counts : counts t = true
  named : ∃ name last, r.site.tree.nameOf r.site.node = .ok name ∧
    name.segments.getLast? = some last ∧
    (t.own.arity = last.arity ∧ Spells last.name t.name ∨
      name.aliasName = none ∧ name.segments = [last] ∧
        ∃ spelling, Spells last.name spelling ∧ Aliased table ⟨spelling, last.arity⟩ r.scope t)

/-- **The class of an attribute is an attribute class that its name can mean.** -/
theorem bindAttribute_yields (hc : Scoped table registered) (counts : TypePath → Bool)
    {r : Reference} (hr : registered r.scope) :
    Yields (Kept table registered) (bindAttribute table counts r) fun found =>
      ∀ t, found = some t → Meant table counts r t := by
  rw [bindAttribute]
  refine Yields.bind (Binding.ofExcept_yields _) fun name hname => ?_
  split
  · exact Yields.pure (by simp)
  · rename_i last hlast
    have hall := Yields.mapM fun spelling (_ : spelling ∈ attributeSpellings last.name) =>
      typeNamed_yields hc counts name.aliasName name.segments.dropLast ⟨spelling, last.arity⟩ hr
        r.within
    refine Yields.bind hall fun found hfound => ?_
    split
    · exact Yields.pure (by simp)
    · rename_i t honly
      refine Yields.pure ?_
      rintro _ ⟨⟩
      have hmem : some t ∈ found := by
        have hin : t ∈ (found.filterMap id).eraseDups := honly ▸ List.mem_singleton_self t
        rw [List.mem_eraseDups, List.mem_filterMap] at hin
        obtain ⟨_, ha, rfl⟩ := hin
        exact ha
      obtain ⟨spelling, hspelling, hreached⟩ := hfound _ hmem
      obtain ⟨hhas, hcounts, hnamed⟩ := hreached t rfl
      refine ⟨hhas, hcounts, name, last, hname, hlast, hnamed.imp ?_ ?_⟩
      · intro hown
        rw [TypePath.name, hown]
        exact ⟨rfl, spells_of_mem hspelling⟩
      · rintro ⟨halias, hqualifier, haliased⟩
        refine ⟨halias, ?_, spelling, spells_of_mem hspelling, haliased⟩
        obtain ⟨before, hsegments⟩ := List.getLast?_eq_some_iff.mp hlast
        rw [hsegments, List.dropLast_concat] at hqualifier
        rw [hsegments, hqualifier, List.nil_append]
    · exact Yields.bind (note_yields _) fun _ _ => Yields.pure (by simp)

end

/-! ## All attributes of a compilation -/

theorem bindEach_yields {α β : Type} {I : Findings → Prop} {bind : α → Binding β}
    {P : α → β → Prop} {as : List α} (h : ∀ a ∈ as, Yields I (bind a) (P a)) {f : Findings}
    (hf : I f) : (∀ p ∈ as.zip (bindEach bind as f).1, P p.1 p.2) ∧
      ((bindEach bind as f).2.1 = none → I (bindEach bind as f).2.2) := by
  induction as generalizing f with
  | nil => exact ⟨by simp, fun _ => hf⟩
  | cons a rest ih =>
    rw [bindEach]
    cases hrun : bind a f with
    | error fault g => exact ⟨by simp, fun he => by cases he⟩
    | ok b g =>
      obtain ⟨hp, hg⟩ := h a (by simp) f hf b g hrun
      obtain ⟨hrest, hlast⟩ := ih (fun c hc => h c (by simp [hc])) hg
      refine ⟨?_, hlast⟩
      rw [List.zip_cons_cons, List.forall_mem_cons]
      exact ⟨hp, hrest⟩

theorem bindEach_length {α β : Type} {bind : α → Binding β} {as : List α} {f : Findings}
    (h : (bindEach bind as f).2.1 = none) : (bindEach bind as f).1.length = as.length := by
  induction as generalizing f with
  | nil => rfl
  | cons a rest ih =>
    rw [bindEach] at h ⊢
    cases hrun : bind a f with
    | error fault g =>
      rw [hrun] at h
      cases h
    | ok b g =>
      rw [hrun] at h
      exact congrArg (· + 1) (ih h)

/-- What the names of bases are bound to, and what is known afterwards. -/
theorem bindTable_bases {table : Table} {I : Findings → Prop}
    {B : BaseReference → Option TypePath → Prop} (hnone : I .none)
    (h : ∀ b ∈ table.bases, Yields I (bindType table b.name) (B b)) :
    ∃ bound, (bindTable table).model.bases = (table.bases.map BaseReference.type).zip bound ∧
      (∀ p ∈ table.bases.zip bound, B p.1 p.2) ∧
      ((bindTable table).fault = none → bound.length = table.bases.length) := by
  have hbound := bindEach_yields h hnone
  have hlength : (bindEach (fun b => bindType table b.name) table.bases .none).2.1 = none →
      (bindEach (fun b => bindType table b.name) table.bases .none).1.length =
        table.bases.length := bindEach_length
  rw [bindTable]
  generalize bindEach (fun b => bindType table b.name) table.bases .none = found at hbound hlength
  obtain ⟨bound, fault, findings⟩ := found
  cases fault with
  | some fault => exact ⟨bound, rfl, hbound.1, fun he => by cases he⟩
  | none => exact ⟨bound, rfl, hbound.1, fun _ => hlength rfl⟩

/-- What attributes are bound to, when each is bound as it should be. -/
theorem bindTable_classes {table : Table} {I : Findings → Prop}
    {A : Reference → Option TypePath → Prop} (hnone : I .none)
    (hbases : ∀ b ∈ table.bases, Yields I (bindType table b.name) fun _ => True)
    (h : ∀ r ∈ table.attributes,
      Yields I (bindAttribute table (isAttributeClass table (bindTable table).model.bases) r) (A r)) :
    (∀ p ∈ table.attributes.zip (bindTable table).model.classes, A p.1 p.2) ∧
      ((bindTable table).fault = none →
        (bindTable table).model.classes.length = table.attributes.length) := by
  have hkept := (bindEach_yields hbases hnone).2
  rw [bindTable] at h ⊢
  generalize bindEach (fun b => bindType table b.name) table.bases .none = found at h hkept ⊢
  obtain ⟨bound, fault, findings⟩ := found
  cases fault with
  | some fault => exact ⟨by simp, fun he => by cases he⟩
  | none => exact ⟨(bindEach_yields h (hkept rfl)).1, bindEach_length⟩

theorem bindTable_meant {table : Table} (h : Settled table []) {r : Reference} {t : TypePath}
    (hp : (r, some t) ∈ table.attributes.zip (bindTable table).model.classes) :
    Meant table (isAttributeClass table (bindTable table).model.bases) r t := by
  obtain ⟨registered, ha⟩ := h
  have hbases : ∀ b ∈ table.bases, Yields (Kept table registered) (bindType table b.name)
      fun _ => True := fun b hb => bindType_yields ha.toScoped (ha.bases b hb)
  have hattributes : ∀ r ∈ table.attributes, Yields (Kept table registered)
      (bindAttribute table (isAttributeClass table (bindTable table).model.bases) r) fun found =>
      ∀ t, found = some t →
        Meant table (isAttributeClass table (bindTable table).model.bases) r t := by
    intro r hr
    obtain ⟨f, hf, hrf⟩ := List.mem_flatMap.mp hr
    exact bindAttribute_yields ha.toScoped _ (ha.attributes f hf r hrf)
  exact (bindTable_classes Kept.none hbases hattributes).1 (r, some t) hp t rfl

theorem build_meant {trees : List SourceTree} {r : Reference} {t : TypePath}
    (h : (r, some t) ∈
      (build trees).model.table.attributes.zip (build trees).model.classes) :
    Meant (build trees).model.table (build trees).model.isAttributeClass r t := by
  rw [build] at h ⊢
  cases hd : declareTrees trees .empty with
  | error fault table =>
    rw [hd] at h
    simp at h
  | ok u table =>
    have hsettled := (declareTrees_iff.mp hd).settled settled_empty
    have htable := bindTable_table table
    rw [hd] at h
    simp only at h ⊢
    have hmodel : (r, some t) ∈ table.attributes.zip (bindTable table).model.classes := by
      cases hb : (bindTable table).fault with
      | some fault => simpa only [hb, htable] using h
      | none => simpa only [hb, htable] using h
    have hmeant := bindTable_meant hsettled hmodel
    have hclasses : isAttributeClass table (bindTable table).model.bases =
        (bindTable table).model.isAttributeClass := by
      funext u
      rw [Model.isAttributeClass, htable]
    rw [hclasses] at hmeant
    cases hb : (bindTable table).fault with
    | some fault => simpa only [hb, htable] using hmeant
    | none => simpa only [hb, htable] using hmeant

end PrintGen.Symbols
