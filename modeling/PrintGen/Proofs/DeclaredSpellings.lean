import PrintGen.Proofs.AttributeBinding
import PrintGen.Proofs.AttributeLayers
import PrintGen.Proofs.DecidingBases
import PrintGen.Proofs.FieldOrder

/-!
# Referring to a type the way it is declared

A name is looked for first in the types around it and then in the namespace of the innermost level,
which is the namespace that the type around it is declared in. So another type of this namespace is
found there under its own name, as a base and, if no attribute class comes in between, as an
attribute. The names of declarations are kept as they are written, but the mark of a verbatim
identifier is taken off a name that is looked up. A type that is declared with the mark is therefore
not found under the name it was declared with.
-/

namespace PrintGen.Symbols

open Syntax

/-! ## The level that a type is declared in -/

/-- The innermost level of a scope is one of the namespace that a type lies in. -/
def LevelOf (t : TypePath) (scope : Scope) : Prop :=
  ∃ frame outer, scope = frame :: outer ∧ frame.home = t.home

/-- The base of a type is looked up from outside the type, and if there is no type around it from
the level of its namespace. -/
def BasesLevelled (table : Table) : Prop :=
  ∀ b ∈ table.bases, b.name.within = b.type.outer? ∧
    (b.type.outer? = none → LevelOf b.type b.name.scope)

/-- The attributes of a field are looked up from inside its type, in the level of its namespace. -/
def AttributesLevelled (table : Table) : Prop :=
  ∀ f ∈ table.fields, ∀ r ∈ f.attributes, r.within = some f.owner ∧ LevelOf f.owner r.scope

/-- There is no file-scoped namespace inside a type. -/
def TypesClosed (node : Node) : Prop :=
  ∀ inner ∈ node.preorder, inner.kind.isTypeDeclaration = true →
    ∀ below ∈ inner.preorder, below.kind ≠ .fileScopedNamespace

instance (node : Node) : Decidable (TypesClosed node) :=
  inferInstanceAs (Decidable (∀ inner ∈ node.preorder, inner.kind.isTypeDeclaration = true →
    ∀ below ∈ inner.preorder, below.kind ≠ .fileScopedNamespace))

theorem TypesClosed.below {node inner : Node} (h : TypesClosed node) (hi : inner ∈ node.preorder) :
    TypesClosed inner :=
  fun n hn => h n (Node.preorder_trans hi hn)

/-- A type is declared into the namespace of the innermost level, or inside the type around it. -/
theorem typeOf_level {tree : SourceTree} {node : Node} {scope : Scope} {within : Option TypePath}
    {t : TypePath} {parameters : List String}
    (ht : typeOf tree node scope within = .ok (t, parameters)) (hs : scope ≠ [])
    (hin : ∀ outer, within = some outer → LevelOf outer scope) : LevelOf t scope := by
  obtain ⟨name, -, -, rfl⟩ := typeOf_ok ht
  cases within with
  | none =>
    obtain ⟨frame, outer, rfl⟩ := List.exists_cons_of_ne_nil hs
    exact ⟨frame, outer, rfl, rfl⟩
  | some outer => exact hin outer rfl

theorem Declares.basesLevelled {tree : SourceTree} {scope : Scope} {within : Option TypePath}
    {nodes : List Node} {table last : Table} (h : Declares tree scope within nodes table last)
    (hs : scope ≠ []) (hb : BasesLevelled table) : BasesLevelled last := by
  induction h with
  | nil => exact hb
  | directive hk hd hr ih =>
    refine ih hs ?_
    rwa [BasesLevelled, Table.withDirective_bases]
  | block hk hn hbody hr ihb ihr =>
    refine ihr hs (ihb (withScope_ne_nil hs) ?_)
    rwa [BasesLevelled, Table.withScope_bases]
  | file hk hn hbody hr ihb ihr =>
    refine ihr (withScope_ne_nil hs) (ihb (withScope_ne_nil hs) ?_)
    rwa [BasesLevelled, Table.withScope_bases]
  | storage hk hf hr ih => exact ih hs hb
  | @type scope within node rest table mid last kind t parameters hk ht hbody hr ihb ihr =>
    refine ihr hs (ihb hs fun b hmem => ?_)
    rcases mem_withType_bases hmem with hold | ⟨name, -, rfl⟩
    · exact hb b hold
    · refine ⟨rfl, fun houter => typeOf_level ht hs fun outer hw => ?_⟩
      -- a type with no type around it is not declared inside one
      subst hw
      obtain ⟨_, -, -, rfl⟩ := typeOf_ok ht
      cases houter
  | wrapper hk hbody hr ihb ihr => exact ihr hs (ihb hs hb)
  | skip hk hstorage hr ih => exact ih hs hb

theorem Declares.attributesLevelled {tree : SourceTree} {scope : Scope} {within : Option TypePath}
    {nodes : List Node} {table last : Table} (h : Declares tree scope within nodes table last)
    (hs : scope ≠ []) (hclosed : ∀ node ∈ nodes, TypesClosed node)
    (hin : ∀ outer, within = some outer → LevelOf outer scope ∧
      ∀ node ∈ nodes, ∀ below ∈ node.preorder, below.kind ≠ .fileScopedNamespace)
    (hf : AttributesLevelled table) : AttributesLevelled last := by
  induction h with
  | nil => exact hf
  | directive hk hd hr ih =>
    refine ih hs (List.forall_mem_cons.mp hclosed).2
      (fun outer hw => ⟨(hin outer hw).1, (List.forall_mem_cons.mp (hin outer hw).2).2⟩) ?_
    rwa [AttributesLevelled, Table.withDirective_fields]
  | block hk hn hbody hr ihb ihr =>
    obtain ⟨hnode, hnodes⟩ := List.forall_mem_cons.mp hclosed
    refine ihr hs hnodes
      (fun outer hw => ⟨(hin outer hw).1, (List.forall_mem_cons.mp (hin outer hw).2).2⟩)
      (ihb (withScope_ne_nil hs) (fun n hn => hnode.below (members_mem hn)) nofun ?_)
    rwa [AttributesLevelled, Table.withScope_fields]
  | @file scope within node rest table mid last segments hk hn hbody hr ihb ihr =>
    obtain ⟨hnode, hnodes⟩ := List.forall_mem_cons.mp hclosed
    -- only here the levels change for what comes after, so that it must not be inside a type
    have hnone : ∀ outer, within ≠ some outer := fun outer hw =>
      (hin outer hw).2 node List.mem_cons_self node (Node.mem_preorder_self node) hk
    refine ihr (withScope_ne_nil hs) hnodes (fun outer hw => absurd hw (hnone outer))
      (ihb (withScope_ne_nil hs)
        (fun n hn => hnode.below (Node.child_mem_preorder hn)) nofun ?_)
    rwa [AttributesLevelled, Table.withScope_fields]
  | @storage scope owner node rest table last fields hk hread hr ih =>
    obtain ⟨hlevel, hbelow⟩ := hin owner rfl
    refine ih hs (List.forall_mem_cons.mp hclosed).2 ?_ ?_
    · rintro _ ⟨⟩
      exact ⟨hlevel, (List.forall_mem_cons.mp hbelow).2⟩
    · refine List.forall_mem_append.mpr ⟨hf, fun f hmem r hr => ?_⟩
      obtain ⟨-, name, -, rfl⟩ := storedFields_references hread f hmem r hr
      rw [((storedFields_spec hread).1 f hmem).2]
      exact ⟨rfl, hlevel⟩
  | @type scope within node rest table mid last kind t parameters hk ht hbody hr ihb ihr =>
    obtain ⟨hnode, hnodes⟩ := List.forall_mem_cons.mp hclosed
    have hlevel : LevelOf t scope := typeOf_level ht hs fun outer hw => (hin outer hw).1
    have hinside := hnode node (Node.mem_preorder_self node) (by rw [hk]; rfl)
    refine ihr hs hnodes
      (fun outer hw => ⟨(hin outer hw).1, (List.forall_mem_cons.mp (hin outer hw).2).2⟩)
      (ihb hs (fun n hn => hnode.below (openMembers_mem hn)) ?_ ?_)
    · rintro _ ⟨⟩
      exact ⟨hlevel, fun n hn below hbelow =>
        hinside below (Node.preorder_trans (openMembers_mem hn) hbelow)⟩
    · rwa [AttributesLevelled, Table.withType_fields]
  | @wrapper scope within node rest table mid last w hk hbody hr ihb ihr =>
    obtain ⟨hnode, hnodes⟩ := List.forall_mem_cons.mp hclosed
    refine ihr hs hnodes
      (fun outer hw => ⟨(hin outer hw).1, (List.forall_mem_cons.mp (hin outer hw).2).2⟩)
      (ihb hs (fun n hn => hnode.below (Node.child_mem_preorder hn)) (fun outer hw => ?_) hf)
    refine ⟨(hin outer hw).1, fun n hn below hbelow => ?_⟩
    exact (hin outer hw).2 node List.mem_cons_self below
      (Node.preorder_trans (Node.child_mem_preorder hn) hbelow)
  | skip hk hstorage hr ih =>
    exact ih hs (List.forall_mem_cons.mp hclosed).2
      (fun outer hw => ⟨(hin outer hw).1, (List.forall_mem_cons.mp (hin outer hw).2).2⟩) hf

theorem DeclaresTrees.basesLevelled {trees : List SourceTree} {table last : Table}
    (h : DeclaresTrees trees table last) (hb : BasesLevelled table) : BasesLevelled last := by
  induction h with
  | nil => exact hb
  | cons ht hr ih => exact ih (Declares.basesLevelled ht (List.cons_ne_nil _ _) hb)

theorem DeclaresTrees.attributesLevelled {trees : List SourceTree} {table last : Table}
    (h : DeclaresTrees trees table last) (hclosed : ∀ tree ∈ trees, TypesClosed tree.root)
    (hf : AttributesLevelled table) : AttributesLevelled last := by
  induction h with
  | nil => exact hf
  | cons ht hr ih =>
    obtain ⟨htree, htrees⟩ := List.forall_mem_cons.mp hclosed
    exact ih htrees (Declares.attributesLevelled ht (List.cons_ne_nil _ _)
      (fun n hn => htree.below (Node.child_mem_preorder hn)) nofun hf)

/-! ## What can be seen under a name -/

/-- Whether a layer has a type under a name. Using directives bring types in, and an alias gives its
target another name. -/
def Table.Offers (table : Table) (s : Segment) (t : TypePath) : Layer → Prop
  | .inType outer => t = .nested outer s
  | .inNamespace home => t = .top home s
  | .throughUsings [] => False
  | .throughUsings (frame :: outer) => ∃ u ∈ table.usingsOf frame,
      u.aliasName = none ∧ u.brings s (table.target (frame :: outer) u) = some t ∨
      s.arity = 0 ∧ u.aliasName = some s.name ∧
        table.target (frame :: outer) u = some (.ofType t)

/-- A type can be seen under a name from a place. -/
def Table.VisibleAs (table : Table) (s : Segment) (scope : Scope) (within : Option TypePath)
    (t : TypePath) : Prop :=
  ∃ layer ∈ layers scope within, table.Offers s t layer

/-- Without using directives, only the type around a place and its namespace have types. -/
theorem visibleAs_alone {table : Table} (husings : table.usings = []) {s : Segment} {frame : Frame}
    {home : Namespace} {own : Segment} {t : TypePath}
    (h : table.VisibleAs s [frame] (some (.top home own)) t) :
    t = .nested (.top home own) s ∨ t = .top frame.home s := by
  obtain ⟨layer, hlayer, hoffers⟩ := h
  simp only [layers, Option.elim_some, layersOfType, layersOfScope, List.cons_append,
    List.nil_append, List.mem_cons, List.not_mem_nil, or_false] at hlayer
  rcases hlayer with rfl | rfl | rfl
  · exact .inl hoffers
  · exact .inr hoffers
  · obtain ⟨u, hu, -⟩ := hoffers
    have hmem := (mem_usingsOf hu).1
    rw [husings] at hmem
    cases hmem

section

variable {table : Table} {registered : Scope → Prop} {counts : TypePath → Bool} {s : Segment}

theorem viable?_member {c : Entity} {t : TypePath}
    (h : viable? counts (table.memberType? c s) = some t) : t = c.member s := by
  have hm := (viable?_some h).1
  rw [Table.memberType?_eq] at hm
  exact (type?_some hm).1

theorem enclosed?_offered {around t : TypePath} (h : enclosed? table counts s around = some t) :
    ∃ layer ∈ layersOfType around, table.Offers s t layer := by
  induction around with
  | top home own => exact ⟨_, List.mem_singleton_self _, viable?_member h⟩
  | nested outer own ih =>
    rcases Option.or_eq_some_iff.mp h with hm | ⟨-, hm⟩
    · exact ⟨_, List.mem_cons_self, viable?_member hm⟩
    · obtain ⟨layer, hlayer, hoffers⟩ := ih hm
      exact ⟨layer, List.mem_cons_of_mem _ hlayer, hoffers⟩

/-- Nothing is found in a top-level type if the type of that name in it does not count. -/
theorem enclosed?_none {around : TypePath} (houter : around.outer? = none)
    (hcounts : counts (.nested around s) = false) : enclosed? table counts s around = none := by
  cases around with
  | nested outer own => cases houter
  | top home own =>
    rw [enclosed?, Table.memberType?_eq, viable?_type?, Option.filter_eq_none_iff]
    rintro _ ⟨⟩
    have hmember : counts (Entity.member (.ofType (.top home own)) s) = false := hcounts
    rw [Table.admits, hmember, Bool.and_false]
    exact Bool.false_ne_true

theorem mem_layersOfScope {frame : Frame} {outer scope : Scope} (h : frame :: outer <:+ scope) :
    .inNamespace frame.home ∈ layersOfScope scope ∧
      .throughUsings (frame :: outer) ∈ layersOfScope scope := by
  induction scope with
  | nil => cases List.eq_nil_of_suffix_nil h
  | cons inner rest ih =>
    rcases List.suffix_cons_iff.mp h with heq | hsuffix
    · cases heq
      exact ⟨List.mem_cons_self, List.mem_cons_of_mem _ List.mem_cons_self⟩
    · obtain ⟨hhome, husings⟩ := ih hsuffix
      exact ⟨List.mem_cons_of_mem _ (List.mem_cons_of_mem _ hhome),
        List.mem_cons_of_mem _ (List.mem_cons_of_mem _ husings)⟩

theorem Supplied.offered {frame : Frame} {outer : Scope} {t : TypePath}
    (h : Supplied table counts s frame outer t) :
    table.Offers s t (.throughUsings (frame :: outer)) := by
  cases h with
  | imported hu hn ht =>
    rw [viable?_imported] at ht
    exact ⟨_, hu, .inl ⟨hn, (Option.filter_eq_some_iff.mp ht).1⟩⟩
  | aliased hu ha hn ht hc => exact ⟨_, hu, .inr ⟨ha, hn, ht⟩⟩

/-- **What a simple name leads to can be seen under this name.** -/
theorem LeadsTo.visible {scope : Scope} {within : Option TypePath} {t : TypePath}
    (h : LeadsTo table counts s scope within t) : table.VisibleAs s scope within t := by
  cases h with
  | enclosed hw ht =>
    subst hw
    obtain ⟨layer, hlayer, hoffers⟩ := enclosed?_offered ht
    exact ⟨layer, List.mem_append_left _ hlayer, hoffers⟩
  | member hs ht =>
    exact ⟨_, List.mem_append_right _ (mem_layersOfScope hs).1, viable?_member ht⟩
  | supplied hs ht =>
    exact ⟨_, List.mem_append_right _ (mem_layersOfScope hs).2, ht.offered⟩

theorem simpleType_unseen (hc : Scoped table registered) {scope : Scope} (hr : registered scope)
    {within : Option TypePath}
    (hunseen : ∀ t, counts t = true → ¬table.VisibleAs s scope within t) :
    Yields (Kept table registered) (simpleType table counts s scope within) fun found =>
      found = none := by
  refine (simpleType_yields hc counts s hr within).mono fun found hfound => ?_
  cases found with
  | none => rfl
  | some t =>
    have hleads := hfound t rfl
    exact absurd hleads.visible (hunseen t hleads.named.counts)

/-! ## Types of the own namespace -/

/-- Unless a type around the place is in the way, a name is found in the namespace of the level. -/
theorem simpleType_own {I : Findings → Prop} {home : Namespace} {scope : Scope}
    {within : Option TypePath} (hwithin : within.bind (enclosed? table counts s) = none)
    (hlevel : LevelOf (.top home s) scope) (ht : table.hasType (.top home s) = true)
    (hcounts : counts (.top home s) = true) :
    Gives I (simpleType table counts s scope within) (.ok (some (.top home s))) := by
  obtain ⟨frame, outer, rfl, hhome⟩ := hlevel
  have hmember : viable? counts (table.memberType? (.ofNamespace frame.home) s) =
      some (.top home s) := by
    rw [Table.memberType?_eq, hhome, viable?_type?, Option.filter_eq_some_iff]
    exact ⟨rfl, by rw [Table.admits, Bool.and_eq_true]; exact ⟨ht, hcounts⟩⟩
  rw [simpleType, hwithin, typeInScope, hmember]
  exact Gives.pure _

end

/-- A name with the mark of a verbatim identifier is looked up without it. -/
theorem spellings_of_marked {name : String} (h : ¬Unmarked name) :
    attributeSpellings name = [withoutMark name] ∧ withoutMark name ≠ name := by
  obtain ⟨rest, hlist⟩ : ∃ rest, name.toList = '@' :: rest := by
    cases hl : name.toList with
    | nil => exact absurd (by rw [Unmarked, hl]; nofun) h
    | cons c rest =>
      have hc : c = '@' := by
        by_contra hne
        exact h (by rw [Unmarked, hl]; exact fun he => hne (Option.some.inj he))
      exact ⟨rest, by rw [hc]⟩
  have hmark : withoutMark name = String.ofList rest := by
    rw [withoutMark, hlist]
    rfl
  have hspellings : attributeSpellings name = [String.ofList rest] := by
    rw [attributeSpellings, hlist]
    rfl
  refine ⟨by rw [hspellings, hmark], fun he => ?_⟩
  have hlength := congrArg (fun text => text.toList.length) he
  rw [hmark] at hlength
  simp only [String.toList_ofList, hlist, List.length_cons] at hlength
  omega

section

variable {table : Table} {registered : Scope → Prop} {counts : TypePath → Bool} {own : Segment}
  {home : Namespace} {r : Reference}

/-- A marked name leads to the type that is declared with the mark only as an alias. -/
theorem typeNamed_marked (hc : Scoped table registered) (hr : registered r.scope)
    (hmark : ¬Unmarked own.name) : Yields (Kept table registered)
      (typeNamed table counts none [] ⟨withoutMark own.name, own.arity⟩ r.scope r.within)
      fun found => found = some (.top home own) →
        Aliased table ⟨withoutMark own.name, own.arity⟩ r.scope (.top home own) := by
  refine (typeNamed_yields hc counts none [] _ hr r.within).mono fun found hfound he => ?_
  rcases (hfound _ he).named with hown | ⟨-, -, haliased⟩
  · exact absurd (congrArg Segment.name hown).symm (spellings_of_marked hmark).2
  · exact haliased

variable (hname : r.site.tree.nameOf r.site.node = .ok ⟨none, [own]⟩)

include hname

/-- Without a type around it, a base is bound to the type of that name in its namespace. -/
theorem bindType_own {I : Findings → Prop} (hmark : Unmarked own.name) (hwithin : r.within = none)
    (hlevel : LevelOf (.top home own) r.scope) (ht : table.hasType (.top home own) = true) :
    Gives I (bindType table r) (.ok (some (.top home own))) := by
  rw [bindType, hname, hwithin]
  refine Gives.after (Gives.pure _) ?_
  have hlast : (⟨withoutMark own.name, own.arity⟩ : Segment) = own :=
    congrArg (Segment.mk · own.arity) hmark.withoutMark
  simp only [List.getLast?_singleton, List.dropLast_singleton, hlast]
  change Gives I (simpleType table (fun _ => true) own r.scope none) _
  exact simpleType_own rfl hlevel ht rfl

theorem bindType_marked (hc : Scoped table registered) (hr : registered r.scope)
    (hmark : ¬Unmarked own.name) : Yields (Kept table registered) (bindType table r) fun found =>
      found = some (.top home own) →
        Aliased table ⟨withoutMark own.name, own.arity⟩ r.scope (.top home own) := by
  rw [bindType, hname]
  refine Yields.bind (Binding.ofExcept_yields _) fun name hread => ?_
  cases hread
  exact typeNamed_marked hc hr hmark

/-- An attribute is bound to the attribute class of that name in its namespace, if none is in the
way and none can be seen under the name with the suffix. -/
theorem bindAttribute_own (hc : Scoped table registered) (hr : registered r.scope)
    (hmark : Unmarked own.name) (hwithin : r.within.bind (enclosed? table counts own) = none)
    (hlevel : LevelOf (.top home own) r.scope) (ht : table.hasType (.top home own) = true)
    (hcounts : counts (.top home own) = true)
    (hunseen : ∀ t, counts t = true →
      ¬table.VisibleAs ⟨own.name ++ "Attribute", own.arity⟩ r.scope r.within t) :
    Yields (Kept table registered) (bindAttribute table counts r) fun found =>
      found = some (.top home own) := by
  rw [bindAttribute, hname]
  refine Yields.bind (Binding.ofExcept_yields _) fun name hread => ?_
  cases hread
  simp only [List.getLast?_singleton, List.dropLast_singleton, hmark.spellings]
  have hfound : Yields (Kept table registered)
      ([own.name, own.name ++ "Attribute"].mapM fun spelling =>
        typeNamed table counts none [] ⟨spelling, own.arity⟩ r.scope r.within)
      fun found => found = [some (.top home own), none] := by
    rw [List.mapM_cons, List.mapM_cons, List.mapM_nil]
    refine Yields.bind (simpleType_own hwithin hlevel ht hcounts).yields fun plain hplain => ?_
    refine Yields.bind (P := fun more => more = [none]) ?_ fun more hmore => ?_
    · refine Yields.bind (simpleType_unseen hc hr hunseen) fun suffixed hsuffixed => ?_
      rw [hsuffixed]
      exact Yields.pure rfl
    · rw [hplain, hmore]
      exact Yields.pure rfl
  refine Yields.bind hfound fun found hboth => ?_
  rw [hboth]
  exact Yields.pure rfl

theorem bindAttribute_marked (hc : Scoped table registered) (hr : registered r.scope)
    (hmark : ¬Unmarked own.name) :
    Yields (Kept table registered) (bindAttribute table counts r) fun found =>
      found = some (.top home own) →
        Aliased table ⟨withoutMark own.name, own.arity⟩ r.scope (.top home own) := by
  rw [bindAttribute, hname]
  refine Yields.bind (Binding.ofExcept_yields _) fun name hread => ?_
  cases hread
  simp only [List.getLast?_singleton, List.dropLast_singleton, (spellings_of_marked hmark).1]
  have hfound : Yields (Kept table registered)
      ([withoutMark own.name].mapM fun spelling =>
        typeNamed table counts none [] ⟨spelling, own.arity⟩ r.scope r.within)
      fun found => ∃ t, found = [t] ∧ (t = some (.top home own) →
        Aliased table ⟨withoutMark own.name, own.arity⟩ r.scope (.top home own)) := by
    rw [List.mapM_cons, List.mapM_nil]
    refine Yields.bind (typeNamed_marked hc hr hmark) fun t ht => Yields.pure ⟨t, rfl, ht⟩
  refine Yields.bind hfound fun found hone => ?_
  obtain ⟨t, rfl, haliased⟩ := hone
  cases t with
  | none => exact Yields.pure fun hsome => absurd hsome.symm (Option.some_ne_none _)
  | some t => exact Yields.pure haliased

end

/-! ## Compilations -/

theorem yields_alone {α : Type} {table : Table} {registered : Scope → Prop} {x : Binding α}
    {P : α → Prop} (h : Yields (Kept table registered) x P) {a : α} (ha : alone x = .ok a) :
    P a := by
  rw [alone] at ha
  cases hrun : x .none with
  | ok b findings =>
    rw [hrun] at ha
    cases ha
    exact (h .none Kept.none _ _ hrun).1
  | error fault findings =>
    rw [hrun] at ha
    cases ha

/-- Without a fault, each attribute of a field is bound to what it is bound to alone. -/
theorem builtClass_alone {trees : List SourceTree} (h : (build trees).fault = none)
    {f : BoundField} (hf : f ∈ (build trees).model.fields) {p : Reference × Option TypePath}
    (hp : p ∈ f.field.attributes.zip f.classes) :
    alone (bindAttribute (build trees).model.table (build trees).model.isAttributeClass p.1) =
      .ok p.2 := by
  obtain ⟨-, hfault, hm⟩ := build_ok h
  have hlength : (build trees).model.classes.length =
      (build trees).model.table.attributes.length := by
    rw [hm, bindTable_table]
    exact (bindTable_classes (A := fun _ _ => True) trivial (fun b _ => Yields.trivial _)
      fun r _ => Yields.trivial _).2 hfault
  have hpair : p ∈ (build trees).model.table.attributes.zip (build trees).model.classes := by
    rw [Table.attributes, ← dealClasses_zip hlength]
    exact List.mem_flatMap_of_mem hf hp
  exact (recorded_alone hpair).1

theorem field_of_builtField {m : Model} {f : BoundField} (hf : f ∈ m.fields) :
    f.field ∈ m.table.fields := by
  have hmem := List.mem_map_of_mem (f := BoundField.field) hf
  rwa [Model.fields, dealClasses_field] at hmem

/-- **A type can be referred to the way it is declared, unless it is declared with the mark of a
verbatim identifier.** Take a type of a namespace. If the first name in the base list of a type that
is declared directly in the same namespace is the own name of the type, with as many type arguments,
then it is the base. If it is an attribute class without type parameters and an attribute of a field
of such a type is its own name, then it is the class of the attribute, provided that there is no
attribute class of that name nested in the type of the field and none can be seen under the name
with the suffix; and no tree may have a file-scoped namespace inside a type. But if the own name
begins with the mark, such a base or attribute leads to the type only where the rest of the name is
an alias for it. -/
theorem declared_spelling_binds (trees : List SourceTree) (h : (build trees).fault = none)
    (home : Namespace) (own : Segment)
    (ht : (build trees).model.table.hasType (.top home own) = true) :
    let m := (build trees).model
    (∀ b ∈ m.table.bases, b.type.outer? = none → b.type.home = home →
      b.name.site.tree.nameOf b.name.site.node = .ok ⟨none, [own]⟩ →
      (Unmarked own.name → m.baseOf? b.type = some (.top home own)) ∧
      (¬Unmarked own.name → m.baseOf? b.type = some (.top home own) →
        Aliased m.table ⟨withoutMark own.name, own.arity⟩ b.name.scope (.top home own))) ∧
    (own.arity = 0 → m.isAttributeClass (.top home own) = true →
      ∀ f ∈ m.fields, f.field.owner.outer? = none → f.field.owner.home = home →
      ∀ p ∈ f.field.attributes.zip f.classes,
      p.1.site.tree.nameOf p.1.site.node = .ok ⟨none, [own]⟩ →
      (Unmarked own.name → (∀ tree ∈ trees, TypesClosed tree.root) →
        m.isAttributeClass (.nested f.field.owner own) = false →
        (∀ t, m.isAttributeClass t = true →
          ¬m.table.VisibleAs ⟨own.name ++ "Attribute", own.arity⟩ p.1.scope p.1.within t) →
        p.2 = some (.top home own)) ∧
      (¬Unmarked own.name → p.2 = some (.top home own) →
        Aliased m.table ⟨withoutMark own.name, own.arity⟩ p.1.scope (.top home own))) := by
  intro m
  obtain ⟨hd, -, -⟩ := build_ok h
  obtain ⟨registered, hc⟩ := hd.settled settled_empty
  refine ⟨fun b hb houter hhome hname => ?_, fun _ hclass f hf houter hhome p hp hname => ?_⟩
  · obtain ⟨hwithin, hlevel⟩ := hd.basesLevelled (List.forall_mem_nil _) b hb
    have hbase : m.table.base? b.type = some b := (find?_key_iff hd.bases_nodup).mpr ⟨hb, rfl⟩
    have hlookup : ∀ base, m.baseOf? b.type = some base ↔
        alone (bindType m.table b.name) = .ok (some base) := by
      intro base
      rw [Model.baseOf?, Option.join_eq_some_iff]
      exact lookup_builtBase_iff h hbase
    refine ⟨fun hmark => (hlookup _).mpr ?_, fun hmark hbound => ?_⟩
    · obtain ⟨frame, outer, hscope, hframe⟩ := hlevel houter
      exact (bindType_own (I := fun _ => True) hname hmark (hwithin.trans houter)
        ⟨frame, outer, hscope, hframe.trans hhome⟩ ht).resultOf_eq trivial
    · exact yields_alone (bindType_marked hname hc.toScoped (hc.bases b hb) hmark)
        ((hlookup _).mp hbound) rfl
  · have hfield := field_of_builtField hf
    have hmem : p.1 ∈ f.field.attributes := (List.of_mem_zip hp).1
    have hbound := builtClass_alone h hf hp
    have hr := hc.attributes f.field hfield p.1 hmem
    refine ⟨fun hmark hclosed hnested hunseen => ?_, fun hmark hfound => ?_⟩
    · obtain ⟨hwithin, frame, outer, hscope, hframe⟩ :=
        hd.attributesLevelled hclosed (List.forall_mem_nil _) f.field hfield p.1 hmem
      have henclosed : p.1.within.bind (enclosed? m.table m.isAttributeClass own) = none := by
        rw [hwithin, Option.bind_some]
        exact enclosed?_none houter hnested
      exact yields_alone (bindAttribute_own hname hc.toScoped hr hmark henclosed
        ⟨frame, outer, hscope, hframe.trans hhome⟩ ht hclass hunseen) hbound
    · exact yields_alone (bindAttribute_marked hname hc.toScoped hr hmark) hbound hfound

namespace Sample

open Marker (node identifier)

/-- An attribute class with a name of six characters, and a class that has it as its base and on a
field. -/
def spelled (name : String) : SourceTree :=
  ⟨.source 0, "spelled.cs", ("class " ++ name ++ " : System.Attribute \x7b\x7d class C : " ++
      name ++ " \x7b [" ++ name ++ "] int f; \x7d").toList, false,
    node (.other "compilation_unit") 0 71 none [
      node (.typeDeclaration .classType) 0 34 none [
        identifier 6 12 (some .name),
        node .baseList 13 31 none [
          node (.name .qualified) 15 31 none [
            identifier 15 21 (some .qualifier), identifier 22 31 (some .name)]],
        node .declarationList 32 34 (some (.other "body")) []],
      node (.typeDeclaration .classType) 35 71 none [
        identifier 41 42 (some .name),
        node .baseList 43 51 none [identifier 45 51 none],
        node .declarationList 52 71 (some (.other "body")) [
          node .fieldDeclaration 54 69 none [
            node .attributeList 54 62 none [
              node .attributeUse 55 61 none [identifier 55 61 (some .name)]],
            node .variableDeclaration 63 68 none [
              node (.other "predefined_type") 63 66 (some .type) [],
              node .variableDeclarator 67 68 none [identifier 67 68 (some .name)]]]]]]⟩

/-- Whether a model has a base and an attribute that are written with a name, in a file without
using directives. -/
def refersTo (m : Model) (name : String) : Prop :=
  (∃ b ∈ m.table.bases, b.type = .top .global ⟨"C", 0⟩ ∧
    (b.name.site.tree.nameOf b.name.site.node).toOption = some ⟨none, [⟨name, 0⟩]⟩) ∧
  ∃ f ∈ m.fields, f.field.owner = .top .global ⟨"C", 0⟩ ∧
    ∃ p ∈ f.field.attributes.zip f.classes,
      (p.1.site.tree.nameOf p.1.site.node).toOption = some ⟨none, [⟨name, 0⟩]⟩ ∧
      p.1.scope = [⟨⟨.source 0, 0⟩, .global, true⟩] ∧ p.1.within = some (.top .global ⟨"C", 0⟩)

instance (m : Model) (name : String) : Decidable (refersTo m name) :=
  inferInstanceAs (Decidable (_ ∧ _))

end Sample

/-- A name without the mark leads to the class, as a base and as an attribute. -/
theorem spelling_of_sample :
    let m := (build [Sample.spelled "Logged"]).model
    m.baseOf? (.top .global ⟨"C", 0⟩) = some (.top .global ⟨"Logged", 0⟩) ∧
    ∃ f ∈ m.fields, f.field.owner = .top .global ⟨"C", 0⟩ ∧
      ∃ p ∈ f.field.attributes.zip f.classes, p.2 = some (.top .global ⟨"Logged", 0⟩) := by
  have hfacts : (build [Sample.spelled "Logged"]).fault.isNone = true ∧
      (build [Sample.spelled "Logged"]).model.table.hasType (.top .global ⟨"Logged", 0⟩) = true ∧
      Sample.refersTo (build [Sample.spelled "Logged"]).model "Logged" ∧
      (build [Sample.spelled "Logged"]).model.isAttributeClass
        (.top .global ⟨"Logged", 0⟩) = true ∧
      (∀ tree ∈ [Sample.spelled "Logged"], TypesClosed tree.root) ∧
      (∀ t ∈ [TypePath.nested (.top .global ⟨"C", 0⟩) ⟨"Logged", 0⟩,
          .nested (.top .global ⟨"C", 0⟩) ⟨"Logged" ++ "Attribute", 0⟩,
          .top .global ⟨"Logged" ++ "Attribute", 0⟩],
        (build [Sample.spelled "Logged"]).model.isAttributeClass t = false) ∧
      (build [Sample.spelled "Logged"]).model.table.usings.isEmpty = true := by
    decide +kernel
  -- nothing below needs to know the trees
  generalize [Sample.spelled "Logged"] = trees at hfacts ⊢
  intro m
  obtain ⟨hfault, ht, ⟨⟨b, hb, htype, hname⟩, f, hf, howner, p, hp, hread, hscope, hwithin⟩, hclass,
    hclosed, hothers, husings⟩ := hfacts
  obtain ⟨hbase, hattribute⟩ := declared_spelling_binds trees
    (Option.isNone_iff_eq_none.mp hfault) .global ⟨"Logged", 0⟩ ht
  refine ⟨?_, f, hf, howner, p, hp, ?_⟩
  · rw [← htype]
    exact (hbase b hb (by rw [htype]; rfl) (by rw [htype]; rfl)
      (ok_of_toOption hname)).1 (by decide)
  · refine (hattribute rfl hclass f hf (by rw [howner]; rfl) (by rw [howner]; rfl) p hp
      (ok_of_toOption hread)).1 (by decide) hclosed (by rw [howner]; exact hothers _ (by simp)) ?_
    intro t hcounts hvisible
    rw [hscope, hwithin] at hvisible
    rcases visibleAs_alone (List.isEmpty_iff.mp husings) hvisible with rfl | rfl
    · exact absurd hcounts (by rw [hothers _ (by simp)]; exact Bool.false_ne_true)
    · exact absurd hcounts (by rw [hothers _ (by simp)]; exact Bool.false_ne_true)

/-- A class that is declared with the mark is neither the base nor the class of the attribute that
are written the same way. -/
theorem marked_spelling_unbound :
    let m := (build [Sample.spelled "@event"]).model
    Sample.refersTo m "@event" ∧ m.isAttributeClass (.top .global ⟨"@event", 0⟩) = true ∧
    m.baseOf? (.top .global ⟨"C", 0⟩) = none ∧ m.hasExternalBase (.top .global ⟨"C", 0⟩) = true ∧
    m.fields.map (fun f => f.classes) = [[none]] := by
  decide +kernel

end PrintGen.Symbols
