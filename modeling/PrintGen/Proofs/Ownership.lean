import PrintGen.Proofs.KeptDeclarations
import PrintGen.Proofs.TypeMembers

/-!
# Owners from above and from below

The pass hands the type of a field down from the declaration around it. Which type contains a node
is found the other way: from the node up to the nearest type declaration, which is then looked up by
its key. The records of a pass are followed to their places in the tree, also where a fault stops
the pass. If the keys of type declarations are distinct, both ways lead to the same type, for fields
and for everything that stands in the same body.
-/

namespace PrintGen

open Syntax

/-! ## Places around a place -/

/-- The nearest type declaration among the nodes around. -/
def Syntax.ownerAround? (around : List (Node × Nat)) : Option Node :=
  (around.map Prod.fst).find? fun node => node.kind.isTypeDeclaration

/-- The nearest of the nodes around that is no wrapper, at its place. -/
def Syntax.enclosing? : List (Node × Nat) → Option Place
  | [] => none
  | (node, _) :: rest => if node.kind.isWrapper then enclosing? rest else some ⟨node, rest⟩

/-- The place that encloses another one: for a member of a type, the body. -/
def Syntax.Place.enclosing? (p : Place) : Option Place :=
  Syntax.enclosing? p.around

section

variable (parent : Node) (i : Nat) (around : List (Node × Nat))

theorem ownerAround?_declaration (h : parent.kind.isTypeDeclaration = true) :
    ownerAround? ((parent, i) :: around) = some parent := by
  simp only [ownerAround?, List.map_cons, List.find?_cons, h]

theorem ownerAround?_other (h : parent.kind.isTypeDeclaration = false) :
    ownerAround? ((parent, i) :: around) = ownerAround? around := by
  rw [ownerAround?, List.map_cons, List.find?_cons_of_neg (by simp [h])]
  rfl

end

theorem isTypeDeclaration_of_isWrapper {kind : Kind} (h : kind.isWrapper = true) :
    kind.isTypeDeclaration = false := by
  cases kind with
  | wrapper w => rfl
  | _ => cases h

/-- What is enclosed by the same place has the same owner. -/
theorem ownerAround?_enclosing (around : List (Node × Nat)) :
    ownerAround? around =
      (enclosing? around).bind fun place => ownerAround? ((place.node, 0) :: place.around) := by
  induction around with
  | nil => rfl
  | cons entry rest ih =>
    obtain ⟨node, i⟩ := entry
    rw [enclosing?]
    cases hw : node.kind.isWrapper with
    | true =>
      rw [if_pos rfl, ← ih]
      exact ownerAround?_other node i rest (isTypeDeclaration_of_isWrapper hw)
    | false =>
      rw [if_neg (by decide)]
      rfl

theorem Syntax.Place.owner?_of_enclosing {p q : Place} (h : q.enclosing? = p.enclosing?) :
    q.owner? = p.owner? := by
  have hq : q.owner? = _ := ownerAround?_enclosing q.around
  have hp : p.owner? = _ := ownerAround?_enclosing p.around
  rw [hq, hp]
  exact congrArg (Option.bind · _) h

namespace Symbols

/-! ## What steps leave -/

/-- A step leaves records of this sort, however it ends. -/
def Records {α : Type} (P : List Event → Prop) (x : Declare α) : Prop :=
  ∀ table, ∃ es, stateOf (x table) = table.after es ∧ P es

namespace Records

variable {α β : Type} {P Q R : List Event → Prop}

theorem mono {x : Declare α} (h : Records P x) (hsub : ∀ es, P es → Q es) : Records Q x :=
  fun table => (h table).imp fun es hes => ⟨hes.1, hsub es hes.2⟩

theorem bind {x : Declare α} {f : α → Declare β} (hx : Records P x) (hf : ∀ a, Records Q (f a))
    (hstop : ∀ es, P es → R es) (hjoin : ∀ es more, P es → Q more → R (es ++ more)) :
    Records R (x >>= f) := by
  intro table
  obtain ⟨es, hes, hP⟩ := hx table
  cases hr : x table with
  | error e mid =>
    have hrun : (x >>= f) table = .error e mid := by
      simp only [Bind.bind, EStateM.bind, hr]
    exact ⟨es, by rw [hrun, ← hes, hr]; rfl, hstop es hP⟩
  | ok a mid =>
    obtain ⟨more, hmore, hQ⟩ := hf a mid
    have hmid : mid = table.after es := by rw [← hes, hr]; rfl
    have hrun : (x >>= f) table = f a mid := by
      simp only [Bind.bind, EStateM.bind, hr]
    exact ⟨es ++ more, by rw [hrun, hmore, hmid, Table.after_append], hjoin es more hP hQ⟩

end Records

/-- Records that declare no type, and only fields with the property. -/
structure StoresOnly (Q : FieldEntry → Prop) (es : List Event) : Prop where
  undeclared : declarationsIn es = []
  fields : ∀ f ∈ es.flatMap Event.fields, Q f

theorem StoresOnly.append {Q : FieldEntry → Prop} {es more : List Event} (h : StoresOnly Q es)
    (hm : StoresOnly Q more) : StoresOnly Q (es ++ more) := by
  constructor
  · rw [declarationsIn_append, h.undeclared, hm.undeclared, List.append_nil]
  · rw [List.flatMap_append]
    exact List.forall_mem_append.mpr ⟨h.fields, hm.fields⟩

/-- A step declares no type, and only fields with the property. -/
def Stores {α : Type} (Q : FieldEntry → Prop) (x : Declare α) : Prop :=
  Records (StoresOnly Q) x

namespace Stores

variable {α β : Type} {Q : FieldEntry → Prop}

theorem pure (a : α) : Stores Q (Pure.pure a : Declare α) :=
  fun _ => ⟨[], rfl, rfl, by simp⟩

theorem ofExcept (v : Except Fault α) : Stores Q (Declare.ofExcept v) := by
  cases v with
  | ok a => exact pure a
  | error e => exact fun _ => ⟨[], rfl, rfl, by simp⟩

theorem bind {x : Declare α} {f : α → Declare β} (hx : Stores Q x) (hf : ∀ a, Stores Q (f a)) :
    Stores Q (x >>= f) :=
  Records.bind hx hf (fun _ h => h) fun _ _ h hm => h.append hm

theorem forM {f : α → Declare PUnit} (hf : ∀ a, Stores Q (f a)) (as : List α) :
    Stores Q (as.forM f) := by
  induction as with
  | nil => exact pure _
  | cons a rest ih =>
    rw [List.forM]
    exact bind (hf a) fun _ => ih

/-- A step that makes one record. -/
theorem of_record {x : Declare α} {e : Table → Event}
    (hx : ∀ table, stateOf (x table) = table.record (e table))
    (hd : ∀ table, (e table).declaration? = none) (hf : ∀ table, ∀ f ∈ (e table).fields, Q f) :
    Stores Q x := by
  intro table
  refine ⟨[e table], hx table, ?_, ?_⟩
  · rw [declarationsIn, List.filterMap_cons_none (hd table), List.filterMap_nil]
  · rw [List.flatMap_singleton]
    exact hf table

end Stores

section

variable (tree : SourceTree) (node : Node) (scope : Scope) (owner : TypePath)
  {Q : FieldEntry → Prop}

theorem openFrame_stores (home : Namespace) (isFile : Bool) :
    Stores Q (openFrame tree home isFile) :=
  .of_record (e := fun table => .level ⟨tree.id, Table.rankIn tree.id table.frames⟩)
    (fun _ => rfl) (fun _ => rfl) fun _ _ hf => by cases hf

theorem enterNamespace_stores : Stores Q (enterNamespace tree node scope) := by
  rw [enterNamespace_eq]
  refine .bind (.ofExcept _) fun segments => ?_
  induction segments generalizing scope with
  | nil => exact .pure scope
  | cons s rest ih =>
    rw [enterSegments]
    refine .bind ?_ fun _ => .bind (openFrame_stores tree _ _) fun frame => ih (frame :: scope)
    exact .of_record (e := fun _ => .home (.child scope.home s.name)) (fun _ => rfl)
      (fun _ => rfl) fun _ _ hf => by cases hf

theorem declareUsing_stores : Stores Q (declareUsing tree node scope) := by
  rw [declareUsing_eq]
  refine .bind (.ofExcept _) fun d => ?_
  cases d with
  | none => exact .pure _
  | some directive =>
    exact .of_record (e := fun table => .directive
        ⟨⟨tree.id, Table.rankIn tree.id (table.usings.map Using.mark)⟩,
          if node.hasChild .globalToken then none else scope.head?.map Frame.mark, tree,
          directive.2, directive.1, node.hasChild .staticToken⟩)
      (fun _ => rfl) (fun _ => rfl) fun _ _ hf => by cases hf

theorem addField_stores {field : FieldEntry} (h : Q field) : Stores Q (addField field) :=
  .of_record (e := fun _ => .storage [field]) (fun _ => rfl) (fun _ => rfl)
    fun _ _ hf => List.mem_singleton.mp hf ▸ h

theorem kindOf_stores : Stores Q (kindOf owner) :=
  fun _ => ⟨[], rfl, rfl, by simp⟩

/-- The fields of a field declaration belong to the type around and name the declaration. -/
theorem declareFields_stores :
    Stores (fun f => f.owner = owner ∧ f.origin = some (tree.key node))
      (declareFields tree node scope owner) := by
  refine .bind (.ofExcept _) fun modifiers => .forM (fun declarator => ?_) _
  exact .bind (.ofExcept _) fun name => addField_stores ⟨rfl, rfl⟩

theorem declareBackingField_stores :
    Stores (fun f => f.origin = none) (declareBackingField tree node owner) := by
  refine .bind (.ofExcept _) fun modifiers => .bind (kindOf_stores owner) fun kind => ?_
  split
  · exact .bind (.ofExcept _) fun name => addField_stores rfl
  · exact .pure _

theorem declareEventFields_stores :
    Stores (fun f => f.origin = none) (declareEventFields tree node owner) := by
  refine .bind (.ofExcept _) fun modifiers => .bind (kindOf_stores owner) fun kind => ?_
  split
  · refine .forM (fun declarator => ?_) _
    exact .bind (.ofExcept _) fun name => addField_stores rfl
  · exact .pure _

end

/-! ## Records at their places -/

/-- Records that come from places in a tree, inside the given declaration of a type or outside of
all types. Type declarations come in the order of their places. A field that names a field
declaration comes from a place with its key, and the owner of the place is the declaration that the
field got its type from. -/
structure PlacedIn (tree : SourceTree) (outer : Option (Node × TypePath)) (ps : List Place)
    (es : List Event) : Prop where
  order : ((declarationsIn es).map Declaration.site).Sublist
    ((ps.filter fun p => p.node.kind.isTypeDeclaration).map fun p => ⟨tree, p.node⟩)
  owned : ∀ f ∈ es.flatMap Event.fields, ∀ key, f.origin = some key →
    ∃ p ∈ ps, tree.key p.node = key ∧ ∃ node, p.owner? = some node ∧
      (node, f.owner) ∈ outer.toList ++ (declarationsIn es).map fun d => (d.node, d.path)

namespace PlacedIn

variable {tree : SourceTree} {outer : Option (Node × TypePath)} {ps more : List Place}
  {es later : List Event}

theorem mono (h : PlacedIn tree outer ps es) (hsub : ps.Sublist more) :
    PlacedIn tree outer more es := by
  refine ⟨h.order.trans ((hsub.filter _).map _), fun f hf key hkey => ?_⟩
  obtain ⟨p, hp, hplace⟩ := h.owned f hf key hkey
  exact ⟨p, hsub.subset hp, hplace⟩

theorem append (h : PlacedIn tree outer ps es) (hl : PlacedIn tree outer more later) :
    PlacedIn tree outer (ps ++ more) (es ++ later) := by
  constructor
  · rw [declarationsIn_append, List.map_append, List.filter_append, List.map_append]
    exact h.order.append hl.order
  · intro f hf key hkey
    rw [List.flatMap_append] at hf
    simp only [declarationsIn_append, List.map_append, List.mem_append]
    rcases List.mem_append.mp hf with hfirst | hlater
    · obtain ⟨p, hp, hk, node, hnode, hmem⟩ := h.owned f hfirst key hkey
      refine ⟨p, .inl hp, hk, node, hnode, ?_⟩
      exact (List.mem_append.mp hmem).imp id .inl
    · obtain ⟨p, hp, hk, node, hnode, hmem⟩ := hl.owned f hlater key hkey
      refine ⟨p, .inr hp, hk, node, hnode, ?_⟩
      exact (List.mem_append.mp hmem).imp id .inr

/-- What lies outside of all types can stand inside any type. -/
theorem outside (h : PlacedIn tree none ps es) : PlacedIn tree outer ps es := by
  refine ⟨h.order, fun f hf key hkey => ?_⟩
  obtain ⟨p, hp, hk, node, hnode, hmem⟩ := h.owned f hf key hkey
  exact ⟨p, hp, hk, node, hnode, List.mem_append_right _ hmem⟩

/-- Members of a type stand at its declaration. -/
theorem declaration {d : Declaration} {around : List (Node × Nat)} (ht : d.tree = tree)
    (hk : d.node.kind.isTypeDeclaration = true)
    (h : PlacedIn tree (some (d.node, d.path)) ps es) :
    PlacedIn tree outer (⟨d.node, around⟩ :: ps) (.declaration d :: es) := by
  have hds : declarationsIn (.declaration d :: es) = d :: declarationsIn es := rfl
  subst ht
  constructor
  · rw [hds, List.filter_cons, if_pos hk]
    exact h.order.cons_cons _
  · intro f hf key hkey
    obtain ⟨p, hp, hplace, node, hnode, hmem⟩ := h.owned f hf key hkey
    exact ⟨p, List.mem_cons_of_mem _ hp, hplace, node, hnode, List.mem_append_right _ hmem⟩

end PlacedIn

/-- Fields without a field declaration can come from anywhere. -/
theorem StoresOnly.placed {tree : SourceTree} {outer : Option (Node × TypePath)} {ps : List Place}
    {es : List Event} (h : StoresOnly (fun f => f.origin = none) es) :
    PlacedIn tree outer ps es := by
  refine ⟨by rw [h.undeclared]; exact List.nil_sublist _, fun f hf key hkey => ?_⟩
  rw [h.fields f hf] at hkey
  cases hkey

/-- A step leaves records that come from these places. -/
def FromPlaces {α : Type} (tree : SourceTree) (outer : Option (Node × TypePath)) (ps : List Place)
    (x : Declare α) : Prop :=
  Records (PlacedIn tree outer ps) x

namespace FromPlaces

variable {α β : Type} {tree : SourceTree} {outer : Option (Node × TypePath)} {ps more : List Place}

theorem mono {x : Declare α} (h : FromPlaces tree outer ps x) (hsub : ps.Sublist more) :
    FromPlaces tree outer more x :=
  Records.mono h fun _ hes => hes.mono hsub

theorem outside {x : Declare α} (h : FromPlaces tree none ps x) : FromPlaces tree outer ps x :=
  Records.mono h fun _ hes => hes.outside

theorem bind {x : Declare α} {f : α → Declare β} (hx : FromPlaces tree outer ps x)
    (hf : ∀ a, FromPlaces tree outer more (f a)) : FromPlaces tree outer (ps ++ more) (x >>= f) :=
  Records.bind hx hf (fun _ h => h.mono (List.sublist_append_left _ _)) fun _ _ h hm => h.append hm

theorem pure (a : α) : FromPlaces tree outer ps (Pure.pure a : Declare α) :=
  Records.mono (Stores.pure a) fun _ hes => hes.placed

/-- A step that leaves nothing to place. -/
theorem after {x : Declare α} {f : α → Declare β} (hx : Stores (fun f => f.origin = none) x)
    (hf : ∀ a, FromPlaces tree outer ps (f a)) : FromPlaces tree outer ps (x >>= f) := by
  have hnowhere : FromPlaces tree outer [] x := Records.mono hx fun _ hes => hes.placed
  exact hnowhere.bind hf

theorem returning {x : Declare α} {b : α → β} (hx : FromPlaces tree outer ps x) :
    FromPlaces tree outer ps (x >>= fun a => Pure.pure (b a)) := by
  have hnowhere : ∀ a, FromPlaces tree outer [] (Pure.pure (b a) : Declare β) := fun a => pure (b a)
  exact (hx.bind hnowhere).mono (by simp)

/-- A member that is no field declaration stores what needs no place. -/
theorem storage {declare : TypePath → Declare PUnit} {scope : Scope}
    (h : ∀ t, Stores (fun f => f.origin = none) (declare t)) :
    FromPlaces tree outer ps
      ((outer.map Prod.snd).forM declare >>= fun _ => Pure.pure scope) := by
  cases outer with
  | none => exact pure scope
  | some owner => exact after (h owner.2) fun _ => pure scope

end FromPlaces

/-- The fields of a field declaration stand in the declaration around it. -/
theorem declareFields_placed (tree : SourceTree) (node : Node) (scope : Scope)
    {around : List (Node × Nat)} {owner : Node × TypePath}
    (h : ownerAround? around = some owner.1) :
    FromPlaces tree (some owner) [⟨node, around⟩] (declareFields tree node scope owner.2) := by
  refine Records.mono (declareFields_stores tree node scope owner.2) fun es hes => ?_
  refine ⟨by rw [hes.undeclared]; exact List.nil_sublist _, fun f hf key hkey => ?_⟩
  obtain ⟨ht, horigin⟩ := hes.fields f hf
  refine ⟨_, List.mem_singleton_self _, Option.some.inj (horigin.symm.trans hkey), owner.1, h, ?_⟩
  rw [ht]
  exact List.mem_append_left _ (List.mem_singleton_self _)

/-- A type declaration owns what stands in its body. -/
theorem declareType_placed {β : Type} (tree : SourceTree) (node : Node) (type : TypeKind)
    (scope : Scope) (within : Option TypePath) {outer : Option (Node × TypePath)}
    {around : List (Node × Nat)} {ps : List Place} {inside : TypePath → Declare β}
    (hk : node.kind.isTypeDeclaration = true)
    (h : ∀ t, FromPlaces tree (some (node, t)) ps (inside t)) :
    FromPlaces tree outer (⟨node, around⟩ :: ps)
      (declareType tree node (node.typeKind?.getD type) scope within >>= inside) := by
  intro table
  cases hread : typeOf tree node scope within with
  | error fault =>
    refine ⟨[], ?_, StoresOnly.placed ⟨rfl, by simp⟩⟩
    simp only [Bind.bind, EStateM.bind, declareType_stops hread]
    rfl
  | ok found =>
    obtain ⟨t, parameters⟩ := found
    let d : Declaration := ⟨tree, node, type, scope, t, parameters⟩
    have hfirst : declareType tree node (node.typeKind?.getD type) scope within table =
        .ok t (table.record (.declaration d)) := declareType_ok.mpr ⟨parameters, hread, rfl⟩
    obtain ⟨es, hes, hplaced⟩ := h t (table.record (.declaration d))
    refine ⟨.declaration d :: es, ?_, hplaced.declaration (d := d) rfl hk⟩
    simp only [Bind.bind, EStateM.bind, hfirst]
    exact hes

mutual

theorem declareMember_placed (tree : SourceTree) : ∀ (node : Node) (around : List (Node × Nat))
    (scope : Scope) (outer : Option (Node × TypePath)),
    (∀ owner ∈ outer, ownerAround? around = some owner.1) →
      FromPlaces tree outer (node.placesIn around)
        (declareMember tree scope (outer.map Prod.snd) node)
  | .mk kind named missing start stop label children => by
    intro around scope outer howner
    rw [Node.placesIn]
    cases kind with
    | usingDirective => exact .after (declareUsing_stores tree _ scope) fun _ => .pure scope
    | propertyDeclaration => exact .storage fun t => declareBackingField_stores tree _ t
    | eventFieldDeclaration => exact .storage fun t => declareEventFields_stores tree _ t
    | fieldDeclaration =>
      cases outer with
      | none => exact .pure scope
      | some owner =>
        exact (declareFields_placed tree _ scope (howner owner rfl)).returning.mono
          (List.singleton_sublist.mpr List.mem_cons_self)
    | namespaceDeclaration =>
      -- What a namespace holds belongs to no type, even if the namespace stands in one.
      rw [declareMember]
      refine .after (enterNamespace_stores tree _ scope) fun inner => .returning ?_
      exact (declareBody_placed tree children _ around 0 inner none (by simp)).outside.mono
        (List.sublist_cons_self _ _)
    | fileScopedNamespace =>
      rw [declareMember]
      refine .after (enterNamespace_stores tree _ scope) fun inner => .returning ?_
      exact (declareMembers_placed tree children _ around 0 inner none (by simp)).outside.mono
        (List.sublist_cons_self _ _)
    | typeDeclaration type =>
      rw [declareMember]
      refine declareType_placed tree _ type scope _ rfl fun t => ?_
      refine .after (kindOf_stores t) fun declared => ?_
      split
      · refine .returning (declareBody_placed tree children _ around 0 scope (some (_, t)) ?_)
        intro owner hmem
        cases hmem
        exact ownerAround?_declaration _ 0 around rfl
      · exact .pure scope
    | wrapper w =>
      rw [declareMember]
      refine .returning (.mono (declareMembers_placed tree children _ around 0 scope outer ?_)
        (List.sublist_cons_self _ _))
      intro owner hmem
      exact (ownerAround?_other _ 0 around rfl).trans (howner owner hmem)
    | _ =>
      simp only [declareMember]
      exact .pure scope

theorem declareMembers_placed (tree : SourceTree) : ∀ (nodes : List Node) (parent : Node)
    (around : List (Node × Nat)) (i : Nat) (scope : Scope) (outer : Option (Node × TypePath)),
    (∀ owner ∈ outer, ownerAround? ((parent, 0) :: around) = some owner.1) →
      FromPlaces tree outer (Node.placesAmong parent around i nodes)
        (declareMembers tree scope (outer.map Prod.snd) nodes)
  | [] => by
    intro parent around i scope outer howner
    rw [declareMembers]
    exact .pure ()
  | node :: rest => by
    intro parent around i scope outer howner
    rw [declareMembers, Node.placesAmong]
    exact .bind (declareMember_placed tree node _ scope outer howner) fun inner =>
      declareMembers_placed tree rest parent around (i + 1) inner outer howner

theorem declareBody_placed (tree : SourceTree) : ∀ (children : List Node) (parent : Node)
    (around : List (Node × Nat)) (i : Nat) (scope : Scope) (outer : Option (Node × TypePath)),
    (∀ owner ∈ outer, ownerAround? ((parent, 0) :: around) = some owner.1) →
      FromPlaces tree outer (Node.placesAmong parent around i children)
        (declareBody tree scope (outer.map Prod.snd) children)
  | [] => by
    intro parent around i scope outer howner
    rw [declareBody]
    exact .pure ()
  | .mk kind named missing start stop label children :: rest => by
    intro parent around i scope outer howner
    rw [declareBody, Node.placesAmong]
    split
    · rename_i hbody
      -- A body is no type declaration, so its members have the owner that it has itself.
      have hother := ownerAround?_other (.mk kind named missing start stop label children) 0
        ((parent, i) :: around) (isBody_kind hbody).2.1
      rw [Node.placesIn]
      refine .mono (declareMembers_placed tree children _ ((parent, i) :: around) 0 scope outer ?_)
        ((List.sublist_cons_self _ _).trans (List.sublist_append_left _ _))
      intro owner hmem
      exact hother.trans (howner owner hmem)
    · exact .mono (declareBody_placed tree rest parent around (i + 1) scope outer howner)
        (List.sublist_append_right _ _)

end

/-- **However declaring a tree ends, its records come from the places of the tree.** -/
theorem declareTree_placed (tree : SourceTree) :
    FromPlaces tree none tree.root.places (declareTree tree) := by
  refine .after (openFrame_stores tree .global true) fun frame => ?_
  rw [Node.places, Node.placesIn_eq]
  exact .mono (declareMembers_placed tree tree.root.children tree.root [] 0 [frame] none (by simp))
    (List.sublist_cons_self _ _)

/-! ## Owners in the index of nodes -/

/-- With distinct keys, a node has the type of its declaration. -/
theorem PlacedIn.typeOfNode? {tree : SourceTree} {outer : Option (Node × TypePath)}
    {es : List Event} (h : PlacedIn tree outer tree.root.places es)
    (hkeys : KeysDistinct Kind.isTypeDeclaration tree) (table : Table) :
    ∀ d ∈ declarationsIn es, (table.after es).typeOfNode? (tree.key d.node) = some d.path := by
  intro d hd
  have hsites := h.order
  have hnodup : ((declarationsIn es).map fun d => d.site.key).Nodup := by
    have hall := hkeys
    rw [KeysDistinct, ← Node.placesIn_node [], List.filter_map, List.map_map] at hall
    have hsub := hsites.map Site.key
    rw [List.map_map, List.map_map] at hsub
    exact hall.sublist hsub
  have hkey : d.site.key = tree.key d.node := by
    obtain ⟨p, _, hp⟩ := List.mem_map.mp (hsites.subset (List.mem_map_of_mem hd))
    have htree : tree = d.tree := congrArg Site.tree hp
    rw [htree]
    rfl
  have hmem : d ∈ declarationsAt es (tree.key d.node) :=
    List.mem_filter.mpr ⟨hd, by simpa using hkey⟩
  obtain ⟨last, hlast⟩ := Option.ne_none_iff_exists'.mp
    (List.getLast?_eq_none_iff.not.mpr (List.ne_nil_of_mem hmem))
  obtain ⟨hin, hsame⟩ := List.mem_filter.mp (List.mem_of_getLast? hlast)
  have heq : last = d := List.inj_on_of_nodup_map hnodup hin hd
    ((of_decide_eq_true hsame).trans hkey.symm)
  rw [Table.after_typeOfNode?, hlast, heq]
  rfl

/-- Each field that names a field declaration comes from a place in one of the trees whose owner
stands for the type of the field. -/
def FieldsOwned (trees : List SourceTree) (table : Table) : Prop :=
  ∀ f ∈ table.fields, ∀ key, f.origin = some key → ∃ tree ∈ trees, ∃ p ∈ tree.root.places,
    tree.key p.node = key ∧ ∃ node, p.owner? = some node ∧
      table.typeOfNode? (tree.key node) = some f.owner

/-- The types of nodes stay when the index goes on. -/
theorem Continues.typeOfNode? {table last : Table} (h : Continues table last) {key : NodeKey}
    {t : TypePath} (ht : table.typeOfNode? key = some t) : last.typeOfNode? key = some t := by
  obtain ⟨more, hmore⟩ := h.index
  obtain ⟨entry, hentry, rfl⟩ := Option.map_eq_some_iff.mp ht
  rw [Table.typeOfNode?, ← hmore, List.find?_append, hentry]
  rfl

section

variable {trees : List SourceTree} (hids : ∀ a ∈ trees, ∀ b ∈ trees, a.id = b.id → a = b)
  (hkeys : ∀ tree ∈ trees, KeysDistinct Kind.isTypeDeclaration tree)

include hids hkeys

/-- **One more tree keeps the owners of all fields, however declaring it ends.** -/
theorem declareTree_owned {done : List SourceTree} {table : Table}
    (h : DeclaresTrees done .empty table) (hdone : done ⊆ trees) (ho : FieldsOwned trees table)
    {tree : SourceTree} (htree : tree ∈ trees) :
    FieldsOwned trees (stateOf (declareTree tree table)) := by
  have hcontinues := declareTree_continues h
    (fun a ha => hids a (hdone ha) tree htree) (Continues.refl table)
  obtain ⟨es, hes, hplaced⟩ := declareTree_placed tree table
  intro f hf key hkey
  have hfields := Table.after_fields table es
  rw [← hes] at hfields
  rw [hfields] at hf
  rcases List.mem_append.mp hf with hold | hnew
  · obtain ⟨first, hfirst, p, hp, hplace, node, hnode, ht⟩ := ho f hold key hkey
    exact ⟨first, hfirst, p, hp, hplace, node, hnode, hcontinues.typeOfNode? ht⟩
  · obtain ⟨p, hp, hplace, node, hnode, hmem⟩ := hplaced.owned f hnew key hkey
    obtain ⟨d, hd, hpair⟩ := List.mem_map.mp hmem
    obtain ⟨rfl, howner⟩ := Prod.mk.inj hpair
    refine ⟨tree, htree, p, hp, hplace, d.node, hnode, ?_⟩
    rw [hes, ← howner]
    exact hplaced.typeOfNode? (hkeys tree htree) table d hd

/-- **Owners and index agree for all fields that a pass declares.** -/
theorem declareTrees_owned {done : List SourceTree} {table : Table}
    (h : DeclaresTrees done .empty table) (hdone : done ⊆ trees) (ho : FieldsOwned trees table)
    {rest : List SourceTree} (hrest : rest ⊆ trees) :
    FieldsOwned trees (stateOf (declareTrees rest table)) := by
  induction rest generalizing done table with
  | nil => exact ho
  | cons tree rest ih =>
    obtain ⟨htree, hrest⟩ := List.cons_subset.mp hrest
    have hnext := declareTree_owned hids hkeys h hdone ho htree
    have hstep : declareTrees (tree :: rest) table =
        (declareTree tree >>= fun _ => declareTrees rest) table := rfl
    rw [hstep]
    simp only [Bind.bind, EStateM.bind]
    cases hr : declareTree tree table with
    | error e next =>
      rw [hr] at hnext
      exact hnext
    | ok u next =>
      rw [hr] at hnext
      have hdeclared := h.append (.cons (declareTree_iff.mp hr) .nil)
      exact ih hdeclared (List.append_subset.mpr ⟨hdone, by simpa using htree⟩) hnext hrest

theorem declaredTable_owned : FieldsOwned trees (declaredTable trees) := by
  rw [declaredTable_eq]
  refine declareTrees_owned hids hkeys .nil (List.nil_subset _) ?_ (List.Subset.refl trees)
  exact fun f hf => by cases hf

end

/-- A place is the only one whose node has its key. -/
theorem place_of_count {tree : SourceTree} {p q : Place} (hp : p ∈ tree.root.places)
    (hq : q ∈ tree.root.places) (hkey : tree.key q.node = tree.key p.node)
    (h : (tree.root.preorder.map tree.key).count (tree.key p.node) = 1) : q = p := by
  rw [← Node.placesIn_node [], List.map_map, List.count, List.countP_map,
    List.countP_eq_length_filter, List.length_eq_one_iff] at h
  obtain ⟨only, honly⟩ := h
  have hone : ∀ r ∈ tree.root.places, tree.key r.node = tree.key p.node → r = only := by
    intro r hr hk
    rw [← List.mem_singleton, ← honly]
    exact List.mem_filter.mpr ⟨hr, by simpa using hk⟩
  rw [hone q hq hkey, hone p hp rfl]

/-- **Owners from above and from below agree.** Let the keys of type declarations be distinct in
each tree; a tree may be given more than once, and a fault may have stopped the pass. A field
belongs to the type that contains the node that introduced it, if no other node of the tree has the
key of this node. The same type contains everything that stands in the same body, where wrappers do
not count. If several nodes have the key, it is one of them that the type contains. -/
theorem owners_agree {trees : List SourceTree}
    (hids : ∀ a ∈ trees, ∀ b ∈ trees, a.id = b.id → a = b)
    (hkeys : ∀ tree ∈ trees, KeysDistinct Kind.isTypeDeclaration tree) {tree : SourceTree}
    (htree : tree ∈ trees) {p : Place} (hp : p ∈ tree.root.places) {b : BoundField}
    (hb : b ∈ (build trees).model.declaredFields (tree.key p.node)) :
    ((tree.root.preorder.map tree.key).count (tree.key p.node) = 1 →
      (build trees).model.containingType? tree p.owner? = some b.field.owner ∧
      ∀ q ∈ tree.root.places, q.enclosing? = p.enclosing? →
        (build trees).model.containingType? tree q.owner? = some b.field.owner) ∧
    ∃ q ∈ tree.root.places, tree.key q.node = tree.key p.node ∧
      (build trees).model.containingType? tree q.owner? = some b.field.owner := by
  obtain ⟨hmem, horigin⟩ := List.mem_filter.mp hb
  have hfield : b.field ∈ (declaredTable trees).fields := by
    rw [← build_table, ← Model.fields_field]
    exact List.mem_map_of_mem hmem
  obtain ⟨tree', htree', origin, hplace, hkey, node, hnode, htype⟩ :=
    declaredTable_owned hids hkeys b.field hfield _ (of_decide_eq_true horigin)
  obtain rfl : tree' = tree := hids tree' htree' tree htree (congrArg NodeKey.tree hkey)
  have hcontains : (build trees).model.containingType? tree' origin.owner? =
      some b.field.owner := by
    rw [hnode, Model.containingType?, build_table]
    exact htype
  refine ⟨fun hcount => ?_, origin, hplace, hkey, hcontains⟩
  obtain rfl := place_of_count hp hplace hkey hcount
  refine ⟨hcontains, fun q _ hq => ?_⟩
  rw [Place.owner?_of_enclosing hq]
  exact hcontains

namespace Sample

open Marker (node identifier)

/-- A field declaration with one name. -/
def fieldOf (start stop : Nat) (name : Node) : Node :=
  node .fieldDeclaration start stop none [
    node .variableDeclaration start name.stop none [
      node .variableDeclarator name.start name.stop none [name]]]

/-- A class with a field and a method in different wrappers, and a class inside of it. -/
def divided : SourceTree :=
  ⟨.source 0, "divided.cs",
    ("class A \x7b\n#if D\nint x;\n#endif\n#if E\nvoid M() \x7b \x7d\n#endif\n" ++
      "class B \x7b int y; \x7d\n\x7d\n").toList, false,
    node (.other "compilation_unit") 0 77 none [
      node (.typeDeclaration .classType) 0 76 none [
        identifier 6 7 (some .name),
        node .declarationList 8 76 (some (.other "body")) [
          node (.wrapper .preprocIf) 10 29 none [
            identifier 14 15 none,
            fieldOf 16 22 (identifier 20 21 (some .name))],
          node (.wrapper .preprocIf) 30 55 none [
            identifier 34 35 none,
            node .methodDeclaration 36 48 none [
              identifier 41 42 (some .name),
              node .parameterList 42 44 (some .parameters) [],
              node .block 45 48 (some (.other "body")) []]],
          node (.typeDeclaration .classType) 56 74 none [
            identifier 62 63 (some .name),
            node .declarationList 64 74 (some (.other "body")) [
              fieldOf 66 72 (identifier 70 71 (some .name))]]]]]⟩

/-- A field declaration whose name is missing, at a place without text. -/
def absentField (start : Nat) : Node :=
  fieldOf start start (.mk (.name .identifier) true true start start (some .name) [])

/-- Two classes, one inside the other, that the text breaks off in. Both have a field without text
at the end. -/
def unfinished : SourceTree :=
  ⟨.source 0, "unfinished.cs", "class A \x7b class B \x7b".toList, true,
    node (.other "compilation_unit") 0 19 none [
      node (.typeDeclaration .classType) 0 19 none [
        identifier 6 7 (some .name),
        node .declarationList 8 19 (some (.other "body")) [
          node (.typeDeclaration .classType) 10 19 none [
            identifier 16 17 (some .name),
            node .declarationList 18 19 (some (.other "body")) [absentField 19]],
          absentField 19]]]⟩

end Sample

/-- The tree is given twice; its field and its method stand in different wrappers. -/
theorem owners_of_sample : ∃ p ∈ Sample.divided.root.places, ∃ q ∈ Sample.divided.root.places,
    p.node.kind = .fieldDeclaration ∧ q.node.kind = .methodDeclaration ∧
    ∃ b ∈ (build [Sample.divided, Sample.divided]).model.declaredFields
        (Sample.divided.key p.node),
      (build [Sample.divided, Sample.divided]).model.containingType? Sample.divided p.owner? =
        some b.field.owner ∧
      (build [Sample.divided, Sample.divided]).model.containingType? Sample.divided q.owner? =
        some b.field.owner := by
  obtain ⟨p, q, hp, hq, hkey, hkind, hbeside⟩ : ∃ p q, Sample.divided.root.places[6]? = some p ∧
      Sample.divided.root.places[12]? = some q ∧
      Sample.divided.key p.node = ⟨.source 0, 16, 22, .fieldDeclaration⟩ ∧
      q.node.kind = .methodDeclaration ∧ q.enclosing? = p.enclosing? :=
    ⟨_, _, rfl, rfl, rfl, rfl, rfl⟩
  have hfacts : KeysDistinct Kind.isTypeDeclaration Sample.divided ∧
      (Sample.divided.root.preorder.map Sample.divided.key).count
        ⟨.source 0, 16, 22, .fieldDeclaration⟩ = 1 ∧
      0 < ((build [Sample.divided, Sample.divided]).model.declaredFields
        ⟨.source 0, 16, 22, .fieldDeclaration⟩).length := by
    decide +kernel
  rw [← hkey] at hfacts
  obtain ⟨hkeys, hcount, hlength⟩ := hfacts
  obtain ⟨b, hb⟩ := List.exists_mem_of_length_pos hlength
  have hmem := List.mem_of_getElem? hq
  obtain ⟨hfield, hmembers⟩ := (owners_agree (by simp) (by simpa using hkeys) (by simp)
    (List.mem_of_getElem? hp) hb).1 hcount
  exact ⟨p, List.mem_of_getElem? hp, q, hmem, congrArg NodeKey.kind hkey, hkind, b, hb, hfield,
    hmembers q hmem hbeside⟩

/-- Two fields without text have one key, though different types contain them. -/
theorem absent_fields_share_key : KeysDistinct Kind.isTypeDeclaration Sample.unfinished ∧
    ∃ p ∈ Sample.unfinished.root.places, p.node.kind = .fieldDeclaration ∧
      ∃ b ∈ (build [Sample.unfinished]).model.declaredFields (Sample.unfinished.key p.node),
        (build [Sample.unfinished]).model.containingType? Sample.unfinished p.owner? ≠
          some b.field.owner := by
  decide +kernel

end Symbols

end PrintGen
