import PrintGen.Proofs.AttributeNames
import PrintGen.Proofs.SymbolTree
import Mathlib.Data.List.Find

/-!
# One name seen in two tables

A lookup only asks about what is in sight of a name: the levels and the types around it, and what
the directives of these levels lead to. All of that belongs to the table that the name was declared
in. A second table that gives the same answers about these symbols binds the name alike, whatever
else it holds.
-/

namespace PrintGen.Symbols

open Syntax

/-! ## Where names stand -/

/-- A place that names can be looked up from: the levels and the type around it belong to the
table. -/
structure Standing (table : Table) (scope : Scope) (within : Option TypePath) : Prop where
  levels : ∀ frame ∈ scope, frame.mark ∈ table.frames ∧ table.hasNamespace frame.home = true
  around : ∀ t, within = some t → table.hasType t = true

section

variable {table : Table} {scope : Scope} {within : Option TypePath}

theorem Standing.after (h : Standing table scope within) (es : List Event) :
    Standing (table.after es) scope within := by
  constructor
  · intro frame hf
    obtain ⟨hmark, hhome⟩ := h.levels frame hf
    rw [Table.after_frames]
    exact ⟨List.mem_append_left _ hmark, (Table.after_hasNamespace _ _ _).mpr (.inl hhome)⟩
  · intro t ht
    exact (Table.after_hasType _ _ _).mpr (.inl (h.around t ht))

theorem Standing.outer {frame : Frame} (h : Standing table (frame :: scope) within) :
    Standing table scope within :=
  ⟨fun other ho => h.levels other (List.mem_cons_of_mem _ ho), h.around⟩

theorem Standing.withFrame (h : Standing table scope within) (tree : SourceTree)
    {home : Namespace} (isFile : Bool) (hh : table.hasNamespace home = true) :
    Standing (table.withFrame tree home isFile).2 ((table.withFrame tree home isFile).1 :: scope)
      within := by
  have hkept := h.after [.level (table.withFrame tree home isFile).1.mark]
  refine ⟨List.forall_mem_cons.mpr ⟨⟨?_, hh⟩, hkept.levels⟩, hkept.around⟩
  exact List.mem_append_right _ (List.mem_singleton_self _)

theorem Standing.withScope (h : Standing table scope within) (tree : SourceTree)
    (segments : List Segment) :
    Standing (Table.withScope tree segments scope table).2
      (Table.withScope tree segments scope table).1 within := by
  induction segments generalizing scope table with
  | nil => exact h
  | cons s rest ih =>
    have hentered := h.after [.home (.child scope.home s.name)]
    refine ih (hentered.withFrame tree false ?_)
    exact (Table.after_hasNamespace _ _ _).mpr (.inr ⟨_, List.mem_singleton_self _, rfl⟩)

end

/-- Every name that is to be bound stands at such a place. -/
structure Placed (table : Table) : Prop where
  bases : ∀ b ∈ table.bases, Standing table b.name.scope b.name.within
  attributes : ∀ f ∈ table.fields, ∀ r ∈ f.attributes, Standing table r.scope r.within

theorem placed_empty : Placed .empty := by
  refine ⟨?_, ?_⟩ <;> simp [Table.empty]

theorem Placed.after {table : Table} (h : Placed table) {es : List Event}
    (hb : (table.after es).bases = table.bases) (hf : (table.after es).fields = table.fields) :
    Placed (table.after es) := by
  constructor
  · rw [hb]
    exact fun b hmem => (h.bases b hmem).after es
  · rw [hf]
    exact fun f hmem r hr => (h.attributes f hmem r hr).after es

theorem typeOf_outer? {tree : SourceTree} {node : Node} {scope : Scope} {within : Option TypePath}
    {t : TypePath} {parameters : List String}
    (h : typeOf tree node scope within = .ok (t, parameters)) : t.outer? = within := by
  obtain ⟨name, -, -, rfl⟩ := typeOf_ok h
  cases within <;> rfl

/-- Declaring nodes at such a place leaves all names at such places. -/
theorem Declares.placed {tree : SourceTree} {scope : Scope} {within : Option TypePath}
    {nodes : List Node} {table last : Table} (h : Declares tree scope within nodes table last)
    (hs : Standing table scope within) (hp : Placed table) : Placed last := by
  induction h with
  | nil => exact hp
  | @directive scope within node rest table last d hk hd hr ih =>
    obtain ⟨es, hes, -⟩ := withDirective_records table tree node scope d
    have hfields := table.withDirective_fields tree node scope d
    have hbases := table.withDirective_bases tree node scope d
    rw [hes] at ih hfields hbases
    exact ih (hs.after es) (hp.after hbases hfields)
  | @block scope within node rest table mid last segments hk hn hb hr ihb ihr =>
    obtain ⟨es, hes, -⟩ := withScope_records tree segments scope table
    obtain ⟨inside, hinside⟩ := hb.after
    have hinner : Standing table scope none := ⟨hs.levels, fun t ht => by cases ht⟩
    have hfields := table.withScope_fields tree scope segments
    have hbases := table.withScope_bases tree scope segments
    have hbody := hinner.withScope tree segments
    rw [hes] at ihb hfields hbases hinside hbody
    have hmid := ihb hbody (hp.after hbases hfields)
    rw [hinside] at ihr hmid
    exact ihr ((hs.after es).after inside) hmid
  | @file scope within node rest table mid last segments hk hn hb hr ihb ihr =>
    obtain ⟨es, hes, -⟩ := withScope_records tree segments scope table
    obtain ⟨inside, hinside⟩ := hb.after
    have hfields := table.withScope_fields tree scope segments
    have hbases := table.withScope_bases tree scope segments
    have hbody := hs.withScope tree segments
    rw [hes] at ihb hfields hbases hinside hbody
    have hmid := ihb ⟨hbody.levels, fun t ht => by cases ht⟩ (hp.after hbases hfields)
    rw [hinside] at ihr hmid
    exact ihr (hbody.after inside) hmid
  | @storage scope owner node rest table last fields hk hf hr ih =>
    have hkept : ∀ scope within, Standing table scope within →
        Standing (table.withFields fields) scope within :=
      fun scope within h => h.after [.storage fields]
    refine ih (hkept _ _ hs) ⟨fun b hb => hkept _ _ (hp.bases b hb), ?_⟩
    intro f hmem r hr
    rcases List.mem_append.mp hmem with hold | hnew
    · exact hkept _ _ (hp.attributes f hold r hr)
    · obtain ⟨-, name, -, rfl⟩ := storedFields_references hf f hnew r hr
      exact hkept _ _ hs
  | @type scope within node rest table mid last kind t parameters hk ht hb hr ihb ihr =>
    let d : Declaration := ⟨tree, node, kind, scope, t, parameters⟩
    have hrecord : table.withType tree node kind scope t parameters =
        table.after [.declaration d] := rfl
    obtain ⟨inside, hinside⟩ := hb.after
    have hdeclared := Table.withType_hasType table tree node kind scope t parameters
    have hfields := table.withType_fields tree node scope kind t parameters
    have hbases : ∀ b ∈ (table.withType tree node kind scope t parameters).bases,
        Standing (table.withType tree node kind scope t parameters) b.name.scope b.name.within := by
      intro b hmem
      rw [hrecord]
      rcases mem_withType_bases hmem with hold | ⟨name, -, rfl⟩
      · exact (hp.bases b hold).after _
      · rw [typeOf_outer? ht]
        exact hs.after _
    rw [hrecord] at ihb hfields hinside hdeclared hbases
    have hmid := ihb ⟨(hs.after _).levels, fun u hu => by cases hu; exact hdeclared⟩
      ⟨hbases, by rw [hfields]; exact fun f hmem r hr => (hp.attributes f hmem r hr).after _⟩
    rw [hinside] at ihr hmid
    exact ihr ((hs.after _).after inside) hmid
  | @wrapper scope within node rest table mid last w hk hb hr ihb ihr =>
    obtain ⟨inside, hinside⟩ := hb.after
    have hmid := ihb hs hp
    rw [hinside] at ihr hmid
    exact ihr (hs.after inside) hmid
  | skip hk hskip hr ih => exact ih hs hp

theorem DeclaresTrees.placed {trees : List SourceTree} {table last : Table}
    (h : DeclaresTrees trees table last) (hp : Placed table) : Placed last := by
  induction h with
  | nil => exact hp
  | @cons tree rest table mid last ht hr ih =>
    have hstart : Standing table [] none := by
      constructor
      · intro frame hf
        cases hf
      · intro t ht
        cases ht
    have hopened : Placed (table.after [.level (table.withFrame tree .global true).1.mark]) :=
      hp.after rfl rfl
    exact ih (Declares.placed ht (hstart.withFrame tree true rfl) hopened)

/-! ## Two tables that share what is in sight -/

/-- A second table gives the same answers when segments of some sort are followed from the symbols
of the first one, and when the levels of the first one are asked for their directives. -/
structure Shares (table other : Table) (asked : Segment → Prop) : Prop where
  stored : Stored table
  descend : ∀ c s, table.has c = true → asked s → other.descend? c s = table.descend? c s
  usings : ∀ frame, frame.mark ∈ table.frames → other.usingsOf frame = table.usingsOf frame
  targets : ∀ u ∈ table.usings, ∀ s ∈ (u.tree.written u.target).segments, asked s

/-- The types that count in each table are found alike under names of some sort. -/
structure Finds (table other : Table) (counts others : TypePath → Bool) (asked : Segment → Prop) :
    Prop where
  member : ∀ c s, table.has c = true → asked s →
    viable? others (other.memberType? c s) = viable? counts (table.memberType? c s)
  types : ∀ t, table.hasType t = true → others t = counts t

section

variable {table other : Table} {counts others : TypePath → Bool} {asked ends : Segment → Prop}
  {scope : Scope} {within : Option TypePath} {s : Segment}

theorem Shares.descendAll? (h : Shares table other asked) {start : Option Entity}
    {segments : List Segment} (hs : ∀ c, start = some c → table.has c = true)
    (ha : ∀ s ∈ segments, asked s) :
    Symbols.descendAll? other start segments = Symbols.descendAll? table start segments := by
  induction segments generalizing start with
  | nil => rfl
  | cons s rest ih =>
    obtain ⟨hhead, hrest⟩ := List.forall_mem_cons.mp ha
    have hstep : (start.bind fun c => other.descend? c s) =
        start.bind fun c => table.descend? c s := by
      cases start with
      | none => rfl
      | some c => exact h.descend c s (hs c rfl) hhead
    have hnext : ∀ c, (start.bind fun c => table.descend? c s) = some c → table.has c = true := by
      intro c hc
      obtain ⟨d, -, hd⟩ := Option.bind_eq_some_iff.mp hc
      exact descend?_some hd
    have hlater := ih hnext hrest
    rw [Symbols.descendAll?, Symbols.descendAll?] at hlater ⊢
    rw [List.foldl_cons, List.foldl_cons, hstep, hlater]

theorem Shares.visible? (h : Shares table other asked) (hs : Standing table scope within)
    (ha : asked s) : Symbols.visible? other s scope = Symbols.visible? table s scope := by
  rw [Symbols.visible?, Symbols.visible?, ← List.head?_filterMap, ← List.head?_filterMap]
  congr 1
  exact List.filterMap_congr fun frame hf => h.descend _ s (hs.levels frame hf).2 ha

theorem Standing.targetScope (h : Standing table scope within) :
    Standing table (Symbols.targetScope scope) within := by
  cases scope with
  | nil => exact h
  | cons frame outer =>
    rw [Symbols.targetScope]
    split
    · exact h
    · exact h.outer

/-- The directives of a table have the same targets in both. -/
theorem Shares.target (h : Shares table other asked) (hs : Standing table scope within) {u : Using}
    (hu : u ∈ table.usings) : other.target scope u = table.target scope u := by
  have hasked := h.targets u hu
  rw [Table.target, Table.target, usingTarget?, usingTarget?]
  cases hname : (u.tree.written u.target).segments with
  | nil => rfl
  | cons head rest =>
    rw [hname] at hasked
    obtain ⟨hhead, hrest⟩ := List.forall_mem_cons.mp hasked
    have hglobal := h.descend (.ofNamespace .global) head rfl hhead
    simp only [hglobal, h.visible? hs.targetScope hhead]
    refine h.descendAll? (fun c hc => ?_) hrest
    split at hc
    · exact descend?_some hc
    · rcases Option.or_eq_some_iff.mp hc with hv | ⟨-, hg⟩
      · obtain ⟨frame, -, hd⟩ := List.exists_of_findSome?_eq_some hv
        exact descend?_some hd
      · exact descend?_some hg

theorem Finds.enclosed? (hf : Finds table other counts others ends) (hs : Stored table)
    (ha : ends s) {t : TypePath} (ht : table.hasType t = true) :
    Symbols.enclosed? other others s t = Symbols.enclosed? table counts s t := by
  induction t with
  | top home own => exact hf.member (.ofType (.top home own)) s ht ha
  | nested outer own ih =>
    rw [Symbols.enclosed?, Symbols.enclosed?, hf.member (.ofType (.nested outer own)) s ht ha,
      ih (hs.containers _ ht)]

theorem Finds.enclosedIn (hf : Finds table other counts others ends) (hs : Stored table)
    (ha : ends s) (hw : ∀ t, within = some t → table.hasType t = true) :
    within.bind (Symbols.enclosed? other others s) =
      within.bind (Symbols.enclosed? table counts s) := by
  cases within with
  | none => rfl
  | some t => exact hf.enclosed? hs ha (hw t rfl)

/-- What the directives of a level make of a name is the same in both. -/
theorem Shares.inUsings (h : Shares table other asked) (hf : Finds table other counts others ends)
    (ha : ends s) {frame : Frame} (hs : Standing table (frame :: scope) within) :
    other.inUsings others s (frame :: scope) frame =
      table.inUsings counts s (frame :: scope) frame := by
  have hsame := h.usings frame (hs.levels frame List.mem_cons_self).1
  have htarget : ∀ p : Using → Bool, ∀ u ∈ (table.usingsOf frame).filter p,
      other.target (frame :: scope) u = table.target (frame :: scope) u :=
    fun p u hu => h.target hs (mem_usingsOf (List.mem_filter.mp hu).1).1
  have hfirst : ∀ us : List Using,
      (∀ u ∈ us, other.target (frame :: scope) u = table.target (frame :: scope) u) →
      other.firstTarget others (frame :: scope) us =
        table.firstTarget counts (frame :: scope) us := by
    intro us hus
    rw [Table.firstTarget, Table.firstTarget, List.map_congr_left hus]
    refine List.find?_congr fun e he => ?_
    obtain ⟨u, -, rfl⟩ := List.mem_map.mp he
    cases hu : table.target (frame :: scope) u with
    | none => rfl
    | some e =>
      cases e with
      | ofNamespace n => rfl
      | ofType t => exact hf.types t (target_some hu)
  have himported : ∀ us : List Using,
      (∀ u ∈ us, other.target (frame :: scope) u = table.target (frame :: scope) u) →
      other.importedTypes others s (frame :: scope) us =
        table.importedTypes counts s (frame :: scope) us := by
    intro us hus
    rw [Table.importedTypes, Table.importedTypes]
    congr 1
    refine List.filterMap_congr fun u hu => ?_
    rw [Table.importedType?, Table.importedType?, hus u hu]
    cases he : table.target (frame :: scope) u with
    | none => rfl
    | some e =>
      have hhas := target_some he
      cases e with
      | ofNamespace n =>
        rw [imported?, imported?]
        split
        · rfl
        · exact hf.member _ s hhas ha
      | ofType t =>
        rw [imported?, imported?]
        split
        · exact hf.member _ s hhas ha
        · rfl
  rw [Table.inUsings, Table.inUsings, hsame, hfirst _ (htarget _), himported _ (htarget _)]

theorem Shares.typeInScope (h : Shares table other asked)
    (hf : Finds table other counts others ends) (ha : ends s)
    (hs : Standing table scope within) :
    other.typeInScope others s scope = table.typeInScope counts s scope := by
  induction scope with
  | nil => rfl
  | cons frame outer ih =>
    rw [Table.typeInScope, Table.typeInScope,
      hf.member (.ofNamespace frame.home) s (hs.levels frame List.mem_cons_self).2 ha,
      h.inUsings hf ha hs, ih hs.outer]

theorem Shares.headInScope (h : Shares table other asked)
    (hf : Finds table other (fun _ => true) (fun _ => true) ends) (ha : asked s) (he : ends s)
    (hs : Standing table scope within) :
    other.headInScope s scope = table.headInScope s scope := by
  induction scope with
  | nil => rfl
  | cons frame outer ih =>
    rw [Table.headInScope, Table.headInScope,
      h.descend (.ofNamespace frame.home) s (hs.levels frame List.mem_cons_self).2 ha,
      h.inUsings hf he hs, ih hs.outer]

theorem Shares.aliasEntity (h : Shares table other asked) (name : String)
    (hs : Standing table scope within) :
    other.aliasEntity name scope = table.aliasEntity name scope := by
  induction scope with
  | nil => rfl
  | cons frame outer ih =>
    have hsame := h.usings frame (hs.levels frame List.mem_cons_self).1
    rw [Table.aliasEntity, Table.aliasEntity, hsame]
    cases hu : (table.usingsOf frame).find? fun u => u.aliasName = some name with
    | none => exact ih hs.outer
    | some u => exact h.target hs (mem_usingsOf (List.mem_of_find?_eq_some hu)).1

theorem Shares.simpleType (h : Shares table other asked)
    (hf : Finds table other counts others ends) (ha : ends s)
    (hs : Standing table scope within) :
    other.simpleType others s scope within = table.simpleType counts s scope within := by
  rw [Table.simpleType, Table.simpleType, hf.enclosedIn h.stored ha hs.around,
    h.typeInScope hf ha hs]

theorem Shares.headEntity (h : Shares table other asked)
    (hf : Finds table other (fun _ => true) (fun _ => true) ends) (ha : asked s) (he : ends s)
    (hs : Standing table scope within) :
    other.headEntity s scope within = table.headEntity s scope within := by
  rw [Table.headEntity, Table.headEntity, hf.enclosedIn h.stored he hs.around,
    h.headInScope hf ha he hs]

/-! ## What is found exists -/

theorem decision_some {ts : List TypePath} {e : Entity} (h : decision ts = some (some e)) :
    ∃ t, ts = [t] ∧ e = .ofType t := by
  cases ts with
  | nil => cases h
  | cons t rest =>
    cases rest with
    | nil => exact ⟨t, rfl, (Option.some.inj (Option.some.inj h)).symm⟩
    | cons u more => cases h

theorem inUsings_some {frame : Frame} {e : Entity}
    (h : table.inUsings counts s scope frame = some (some e)) : table.has e = true := by
  rw [Table.inUsings] at h
  rcases Option.or_eq_some_iff.mp h with hfirst | ⟨-, himported⟩
  · split at hfirst
    · obtain ⟨u, -, hu⟩ := List.mem_map.mp (List.mem_of_find?_eq_some hfirst)
      exact target_some hu
    · cases hfirst
  · obtain ⟨t, hts, rfl⟩ := decision_some himported
    have hmem : t ∈ table.importedTypes counts s scope
        ((table.usingsOf frame).filter fun u => u.aliasName = none) := by
      rw [hts]
      exact List.mem_singleton_self t
    obtain ⟨u, -, hu⟩ := List.mem_filterMap.mp (List.mem_eraseDups.mp hmem)
    exact (Found.of_imported hu).has

theorem typeInScope_some {t : TypePath} (h : table.typeInScope counts s scope = some t) :
    table.hasType t = true := by
  induction scope with
  | nil => cases h
  | cons frame outer ih =>
    rcases Option.or_eq_some_iff.mp h with hm | ⟨-, hlater⟩
    · exact (Found.of_member hm).has
    · split at hlater
      · rename_i decided hu
        rw [entity_of_type? hlater] at hu
        exact inUsings_some hu
      · exact ih hlater

theorem headInScope_some {e : Entity} (h : table.headInScope s scope = some e) :
    table.has e = true := by
  induction scope with
  | nil => cases h
  | cons frame outer ih =>
    rcases Option.or_eq_some_iff.mp h with hm | ⟨-, hlater⟩
    · exact descend?_some hm
    · split at hlater
      · rename_i decided hu
        rw [hlater] at hu
        exact inUsings_some hu
      · exact ih hlater

theorem aliasEntity_some {name : String} {e : Entity}
    (h : table.aliasEntity name scope = some e) : table.has e = true := by
  induction scope with
  | nil => cases h
  | cons frame outer ih =>
    rw [Table.aliasEntity] at h
    split at h
    · exact target_some h
    · exact ih h

theorem headEntity_some {e : Entity} (h : table.headEntity s scope within = some e) :
    table.has e = true := by
  rcases Option.or_eq_some_iff.mp h with hm | ⟨-, hlater⟩
  · obtain ⟨t, ht, rfl⟩ := Option.map_eq_some_iff.mp hm
    obtain ⟨around, -, he⟩ := Option.bind_eq_some_iff.mp ht
    exact (Found.of_enclosed he).has
  · exact headInScope_some hlater

theorem simpleType_some {t : TypePath} (h : table.simpleType counts s scope within = some t) :
    table.hasType t = true := by
  rcases Option.or_eq_some_iff.mp h with hm | ⟨-, hlater⟩
  · obtain ⟨around, -, he⟩ := Option.bind_eq_some_iff.mp hm
    exact (Found.of_enclosed he).has
  · exact typeInScope_some hlater

/-- **A base class that was found is a type of the table.** -/
theorem boundType_some {r : Reference} {t : TypePath} (h : table.boundType r = some t) :
    table.hasType t = true := by
  obtain ⟨last, -, hlast⟩ := Option.bind_eq_some_iff.mp h
  rw [Table.typeNamed] at hlast
  split at hlast
  · exact simpleType_some hlast
  · obtain ⟨hm, -⟩ := viable?_some hlast
    obtain ⟨c, -, hc⟩ := Option.bind_eq_some_iff.mp hm
    exact (memberType?_some hc).1

theorem qualifierEntity_some {aliasName : Option String} {qualifier : List Segment} {e : Entity}
    (h : table.qualifierEntity aliasName qualifier scope within = some e) :
    table.has e = true := by
  cases aliasName with
  | some aliasName =>
    refine descendAll?_some (fun c hc => ?_) h
    split at hc
    · cases hc
      rfl
    · exact aliasEntity_some hc
  | none =>
    cases qualifier with
    | nil => cases h
    | cons head rest => exact descendAll?_some (fun c hc => headEntity_some hc) h

/-! ## Names are bound alike -/

theorem Shares.qualifierEntity (h : Shares table other asked)
    (hf : Finds table other (fun _ => true) (fun _ => true) ends) (aliasName : Option String)
    {qualifier : List Segment} (ha : ∀ s ∈ qualifier, asked s ∧ ends s)
    (hs : Standing table scope within) :
    other.qualifierEntity aliasName qualifier scope within =
      table.qualifierEntity aliasName qualifier scope within := by
  cases aliasName with
  | some aliasName =>
    rw [Table.qualifierEntity, Table.qualifierEntity, h.aliasEntity aliasName hs]
    refine h.descendAll? (fun c hc => ?_) fun s hs => (ha s hs).1
    split at hc
    · cases hc
      rfl
    · exact aliasEntity_some hc
  | none =>
    cases qualifier with
    | nil => rfl
    | cons head rest =>
      obtain ⟨hhead, hrest⟩ := List.forall_mem_cons.mp ha
      rw [Table.qualifierEntity, Table.qualifierEntity, h.headEntity hf hhead.1 hhead.2 hs]
      exact h.descendAll? (fun c hc => headEntity_some hc) fun s hs => (hrest s hs).1

theorem Shares.typeNamed (h : Shares table other asked)
    (hall : Finds table other (fun _ => true) (fun _ => true) ends)
    {last : Segment → Prop} (hf : Finds table other counts others last)
    (aliasName : Option String) {qualifier : List Segment}
    (ha : ∀ s ∈ qualifier, asked s ∧ ends s) (hl : last s) (hs : Standing table scope within) :
    other.typeNamed others aliasName qualifier s scope within =
      table.typeNamed counts aliasName qualifier s scope within := by
  rw [Table.typeNamed, Table.typeNamed, h.simpleType hf hl hs, h.qualifierEntity hall _ ha hs]
  split
  · rfl
  · cases hc : table.qualifierEntity aliasName qualifier scope within with
    | none => rfl
    | some c => exact hf.member c s (qualifierEntity_some hc) hl

/-- **A base is bound alike in both tables.** -/
theorem Shares.boundType (h : Shares table other asked)
    (hall : Finds table other (fun _ => true) (fun _ => true) ends) {r : Reference}
    (hs : Standing table r.scope r.within)
    (ha : ∀ s ∈ (r.site.tree.written r.site.node).segments,
      asked s ∧ ends s ∧ ends ⟨withoutMark s.name, s.arity⟩) :
    other.boundType r = table.boundType r := by
  rw [Table.boundType, Table.boundType]
  cases hlast : (r.site.tree.written r.site.node).segments.getLast? with
  | none => rfl
  | some last =>
    refine h.typeNamed hall hall _ (fun s hs => ?_) (ha last (List.mem_of_getLast? hlast)).2.2 hs
    have hall := ha s (List.mem_of_mem_dropLast hs)
    exact ⟨hall.1, hall.2.1⟩

/-- **An attribute is bound alike in both tables.** -/
theorem Shares.boundAttribute (h : Shares table other asked)
    (hall : Finds table other (fun _ => true) (fun _ => true) ends)
    (hf : Finds table other counts others fun _ => True) {r : Reference}
    (hs : Standing table r.scope r.within)
    (ha : ∀ s ∈ (r.site.tree.written r.site.node).segments.dropLast, asked s ∧ ends s) :
    other.boundAttribute others r = table.boundAttribute counts r := by
  rw [Table.boundAttribute, Table.boundAttribute]
  cases (r.site.tree.written r.site.node).segments.getLast? with
  | none => rfl
  | some last =>
    have hspelled : ∀ spelling ∈ attributeSpellings last.name,
        other.typeNamed others (r.site.tree.written r.site.node).aliasName
            (r.site.tree.written r.site.node).segments.dropLast ⟨spelling, last.arity⟩ r.scope
            r.within =
          table.typeNamed counts (r.site.tree.written r.site.node).aliasName
            (r.site.tree.written r.site.node).segments.dropLast ⟨spelling, last.arity⟩ r.scope
            r.within :=
      fun spelling _ => h.typeNamed hall hf _ ha trivial hs
    rw [Option.bind_some, Option.bind_some, List.filterMap_congr hspelled]

end

end PrintGen.Symbols
