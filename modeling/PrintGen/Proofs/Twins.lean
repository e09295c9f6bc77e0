import PrintGen.Proofs.SiteViews
import PrintGen.Proofs.Tracking

/-!
# Tables of trees that correspond

Two lists of trees whose nodes say the same, although they may lie elsewhere, are declared alike:
the tables correspond entry by entry. Trees, node keys and levels are told apart on both sides in
the same way, so a pairing that is one to one is all that is known of them.

The second table may lack some using directives of the first one.
-/

namespace PrintGen.Symbols

open Syntax

/-- The second list is the first one without some of the members with a property; those that remain
are in a relation. -/
inductive Thinned {α β : Type} (lost : α → Prop) (R : α → β → Prop) : List α → List β → Prop
  | nil : Thinned lost R [] []
  | keep {a b as bs} (h : R a b) (hr : Thinned lost R as bs) : Thinned lost R (a :: as) (b :: bs)
  | lose {a as bs} (h : lost a) (hr : Thinned lost R as bs) : Thinned lost R (a :: as) bs

theorem Thinned.append {α β : Type} {lost : α → Prop} {R : α → β → Prop} {as as' : List α}
    {bs bs' : List β} (h : Thinned lost R as bs) (h' : Thinned lost R as' bs') :
    Thinned lost R (as ++ as') (bs ++ bs') := by
  induction h with
  | nil => exact h'
  | keep hab _ ih => exact .keep hab ih
  | lose ha _ ih => exact .lose ha ih

theorem Thinned.mono {α β : Type} {lost lost' : α → Prop} {R S : α → β → Prop} {as : List α}
    {bs : List β} (h : Thinned lost R as bs) (hl : ∀ a, lost a → lost' a)
    (hr : ∀ a b, R a b → S a b) : Thinned lost' S as bs := by
  induction h with
  | nil => exact .nil
  | keep hab _ ih => exact .keep (hr _ _ hab) ih
  | lose ha _ ih => exact .lose (hl _ ha) ih

/-! ## Pairings -/

/-- How the trees and the nodes of two compilations are paired. -/
structure Pairing where
  ids : TreeId → TreeId → Prop
  keys : NodeKey → NodeKey → Prop

/-- Trees and nodes are paired one to one. -/
structure Pairing.OneToOne (p : Pairing) : Prop where
  ids : Relator.BiUnique p.ids
  keys : Relator.BiUnique p.keys

section

variable (p : Pairing)

/-- Two marks of paired trees with the same rank. -/
structure MarkTwin (m m' : Mark) : Prop where
  tree : p.ids m.tree m'.tree
  rank : m'.rank = m.rank

structure FrameTwin (f f' : Frame) : Prop where
  mark : MarkTwin p f.mark f'.mark
  home : f'.home = f.home
  isFile : f'.isFile = f.isFile

/-- Two scopes whose levels are paired from the inside out. -/
abbrev ScopeTwin : Scope → Scope → Prop :=
  List.Forall₂ (FrameTwin p)

/-- Two nodes that write the same name. -/
def SameName (tree other : SourceTree) (node node' : Node) : Prop :=
  other.nameOf node' = tree.nameOf node

/-- Two nodes that write the same name, and whose texts can be read or not alike. -/
structure SameTarget (tree other : SourceTree) (node node' : Node) : Prop where
  name : SameName tree other node node'
  text : SameResult (fun _ _ => True) (tree.text node) (other.text node')

structure UsingTwin (u v : Using) : Prop where
  frame : Option.Rel (MarkTwin p) u.frame v.frame
  aliasName : v.aliasName = u.aliasName
  isStatic : v.isStatic = u.isStatic
  target : SameTarget u.tree v.tree u.target v.target

/-- Two names to be bound that are written alike. -/
structure ReferenceTwin (r r' : Reference) : Prop where
  name : SameName r.site.tree r'.site.tree r.site.node r'.site.node
  scope : ScopeTwin p r.scope r'.scope
  within : r'.within = r.within

structure FieldTwin (f f' : FieldEntry) : Prop where
  name : f'.name = f.name
  owner : f'.owner = f.owner
  isStatic : f'.isStatic = f.isStatic
  isConst : f'.isConst = f.isConst
  nameable : f'.nameable = f.nameable
  origin : Option.Rel p.keys f.origin f'.origin
  attributes : List.Forall₂ (ReferenceTwin p) f.attributes f'.attributes

structure EntryTwin (e e' : TypeEntry) : Prop where
  path : e'.path = e.path
  kind : e'.kind = e.kind
  parameters : e'.parameters = e.parameters

/-- Two tables that correspond entry by entry, but for using directives that the second one may
lack. -/
structure Twin (lost : Using → Prop) (table other : Table) : Prop where
  namespaces : other.namespaces = table.namespaces
  types : List.Forall₂ EntryTwin table.types other.types
  nodes : List.Forall₂ (fun e e' => p.keys e.1 e'.1 ∧ e'.2 = e.2) table.nodeTypes other.nodeTypes
  fields : List.Forall₂ (FieldTwin p) table.fields other.fields
  frames : List.Forall₂ (MarkTwin p) table.frames other.frames
  usings : Thinned lost (UsingTwin p) table.usings other.usings
  bases : List.Forall₂ (fun b b' => b'.type = b.type ∧ ReferenceTwin p b.name b'.name)
    table.bases other.bases

end

section

variable {p : Pairing} {lost : Using → Prop}

theorem twin_empty : Twin p lost .empty .empty :=
  ⟨rfl, .nil, .nil, .nil, .nil, .nil, .nil⟩

namespace Twin

variable {table other : Table} (h : Twin p lost table other)

include h

theorem hasNamespace (n : Namespace) : other.hasNamespace n = table.hasNamespace n := by
  rw [Table.hasNamespace, Table.hasNamespace, h.namespaces]

theorem entryOf? (t : TypePath) :
    Option.Rel EntryTwin (table.entryOf? t) (other.entryOf? t) :=
  forall₂_find? h.types fun _ _ he => by rw [he.path]

theorem kindOf? (t : TypePath) : other.kindOf? t = table.kindOf? t := by
  have hrel := h.entryOf? t
  rw [Table.kindOf?, Table.kindOf?]
  generalize table.entryOf? t = e at hrel ⊢
  generalize other.entryOf? t = e' at hrel ⊢
  cases hrel with
  | none => rfl
  | some he => exact congrArg some he.kind

theorem hasType (t : TypePath) : other.hasType t = table.hasType t := by
  rw [Bool.eq_iff_iff, Table.hasType_iff, Table.hasType_iff, h.kindOf?]

theorem rankIn (hp : p.OneToOne) {id id' : TreeId} (hid : p.ids id id') :
    Table.rankIn id' other.frames = Table.rankIn id table.frames := by
  have hframes := h.frames
  rw [Table.rankIn, Table.rankIn]
  generalize table.frames = ms at hframes ⊢
  generalize other.frames = ms' at hframes ⊢
  induction hframes with
  | nil => rfl
  | @cons m m' ms ms' hm _ ih =>
    rw [List.countP_cons, List.countP_cons, ih]
    have hiff := Relator.rel_eq hp.ids hm.tree hid
    simp only [decide_eq_true_eq, hiff]

end Twin

/-! ## Declarations that say the same -/

variable (p) in
/-- Both nodes introduce the same type with the same base. -/
structure SameHeader (tree other : SourceTree) (node node' : Node) : Prop where
  key : node.kind.isTypeDeclaration = true ∨ node.kind = .fieldDeclaration →
    p.keys (tree.key node) (other.key node')
  declaredName : other.declaredName node' = tree.declaredName node
  typeParameters : other.typeParameters node' = tree.typeParameters node
  baseName? : Option.Rel (SameName tree other) node.baseName? node'.baseName?

variable (p) in
/-- All that is read of a declaration is the same for both nodes. -/
structure SameDeclaration (tree other : SourceTree) (node node' : Node) : Prop extends
    SameHeader p tree other node node' where
  kind : node'.kind = node.kind
  typeKind? : node'.typeKind? = node.typeKind?
  modifiers : other.modifiers node' = tree.modifiers node
  isAutoProperty : node'.isAutoProperty = node.isAutoProperty
  parameterCount : node'.parameterCount = node.parameterCount
  returnType : node.kind = .methodDeclaration → other.returnType node' = tree.returnType node
  attributeNames : List.Forall₂ (SameName tree other) node.attributeNames node'.attributeNames
  declarators : List.Forall₂ (fun d d' => other.declaredName d' = tree.declaredName d)
    (node.declarators?.getD []) (node'.declarators?.getD [])
  directive : node.kind = .usingDirective → SameResult
    (Option.Rel fun d d' => d'.1 = d.1 ∧ SameTarget tree other d.2 d'.2)
    (directiveOf tree node) (directiveOf other node')
  hasChild : ∀ kind, node'.hasChild kind = node.hasChild kind
  segments : segmentsOf other node' = segmentsOf tree node

variable (p) in
/-- Two trees of nodes in which every node says the same as its counterpart. -/
inductive NodeTwin (tree other : SourceTree) : Node → Node → Prop
  | mk {node node'} (same : SameDeclaration p tree other node node')
      (children : List.Forall₂ (NodeTwin tree other) node.children node'.children) :
      NodeTwin tree other node node'

/-! ## Steps of the declaration pass -/

theorem ofExcept_tracks {α β : Type} {R : α → β → Prop} {v : Except Fault α} {w : Except Fault β}
    (h : SameResult R v w) : Tracks (Twin p lost) R (Declare.ofExcept v) (Declare.ofExcept w) := by
  intro table other ht
  cases h with
  | ok h => exact .ok ht h
  | error fault => exact .error fault table other

theorem ofExcept_tracks_eq {α : Type} {v w : Except Fault α} (h : w = v) :
    Tracks (Twin p lost) (fun a b => b = a) (Declare.ofExcept v) (Declare.ofExcept w) :=
  ofExcept_tracks (.of_eq h)

theorem addNamespace_tracks (n : Namespace) :
    Tracks (Twin p lost) (fun _ _ => True) (addNamespace n) (addNamespace n) := by
  refine .of_modify fun table other h => ?_
  rw [h.hasNamespace]
  split
  · exact h
  · exact { h with namespaces := by rw [h.namespaces] }

theorem kindOf_tracks (t : TypePath) :
    Tracks (Twin p lost) (fun a b => b = a) (kindOf t) (kindOf t) :=
  fun _ _ h => .ok h (h.kindOf? t)

theorem addField_tracks {f f' : FieldEntry} (hf : FieldTwin p f f') :
    Tracks (Twin p lost) (fun _ _ => True) (addField f) (addField f') :=
  .of_modify fun _ _ h => { h with fields := List.rel_append h.fields (.cons hf .nil) }

theorem addDeclaration_tracks (t : TypePath) (kind : TypeKind) (parameters : List String)
    (site site' : Site) : Tracks (Twin p lost) (fun _ _ => True)
      (addDeclaration t kind parameters site) (addDeclaration t kind parameters site') := by
  refine .of_modify fun table other h => ?_
  rw [h.hasType]
  split
  · refine { h with types := ?_ }
    rw [List.forall₂_map_left_iff, List.forall₂_map_right_iff]
    refine h.types.imp fun e e' he => ?_
    rw [he.path]
    split
    · exact ⟨rfl, he.kind, he.parameters⟩
    · exact he
  · exact { h with types := List.rel_append h.types (.cons ⟨rfl, rfl, rfl⟩ .nil) }

section

variable {scope scope' : Scope} (hs : ScopeTwin p scope scope')

include hs

theorem ScopeTwin.home_eq : scope'.home = scope.home := by
  cases hs with
  | nil => rfl
  | cons hf _ => exact hf.home

theorem addBase_tracks {tree other : SourceTree} {base base' : Option Node}
    (hb : Option.Rel (SameName tree other) base base') (t : TypePath) :
    Tracks (Twin p lost) (fun _ _ => True) (addBase t tree base scope)
      (addBase t other base' scope') := by
  cases hb with
  | none => exact .pure trivial
  | @some name name' hname =>
    refine .of_modify fun table other h => ?_
    have hany : (other.bases.any fun b => b.type = t) = table.bases.any fun b => b.type = t :=
      forall₂_any h.bases fun _ _ hb => by rw [hb.1]
    rw [hany]
    split
    · exact h
    · refine { h with bases := List.rel_append h.bases (.cons ⟨rfl, ?_⟩ .nil) }
      exact ⟨hname, hs, rfl⟩

end

section

variable (hp : p.OneToOne)

include hp

theorem putNodeType_tracks {key key' : NodeKey} (hk : p.keys key key') (t : TypePath) :
    Tracks (Twin p lost) (fun _ _ => True)
      (modify fun table =>
        { table with nodeTypes := Table.putNodeType key t table.nodeTypes } : Declare PUnit)
      (modify fun table =>
        { table with nodeTypes := Table.putNodeType key' t table.nodeTypes }) := by
  refine .of_modify fun table other h => { h with nodes := ?_ }
  have hnodes := h.nodes
  generalize table.nodeTypes = ns at hnodes ⊢
  generalize other.nodeTypes = ns' at hnodes ⊢
  induction hnodes with
  | nil => exact .cons ⟨hk, rfl⟩ .nil
  | @cons e e' ns ns' he hr ih =>
    have hiff := Relator.rel_eq hp.keys he.1 hk
    rw [Table.putNodeType, Table.putNodeType]
    by_cases hkey : e.1 = key
    · rw [if_pos hkey, if_pos (hiff.mp hkey)]
      exact .cons ⟨he.1, rfl⟩ hr
    · rw [if_neg hkey, if_neg fun hkey' => hkey (hiff.mpr hkey')]
      exact .cons he ih

variable {tree other : SourceTree} (hid : p.ids tree.id other.id)

include hid

theorem openFrame_tracks (home : Namespace) (isFile : Bool) :
    Tracks (Twin p lost) (FrameTwin p) (openFrame tree home isFile)
      (openFrame other home isFile) := by
  intro table table' h
  have hmark : MarkTwin p ⟨tree.id, Table.rankIn tree.id table.frames⟩
      ⟨other.id, Table.rankIn other.id table'.frames⟩ := ⟨hid, h.rankIn hp hid⟩
  refine .ok { h with frames := ?_ } ⟨hmark, rfl, rfl⟩
  exact List.rel_append h.frames (.cons hmark .nil)

theorem enterSegments_tracks (segments : List Segment) {scope scope' : Scope}
    (hs : ScopeTwin p scope scope') :
    Tracks (Twin p lost) (ScopeTwin p) (enterSegments tree segments scope)
      (enterSegments other segments scope') := by
  induction segments generalizing scope scope' with
  | nil => exact .pure hs
  | cons s rest ih =>
    rw [enterSegments, enterSegments, hs.home_eq]
    refine (addNamespace_tracks _).bind fun _ _ _ => ?_
    exact (openFrame_tracks hp hid _ _).bind fun frame frame' hf => ih (.cons hf hs)

theorem enterNamespace_tracks {node node' : Node}
    (h : segmentsOf other node' = segmentsOf tree node) {scope scope' : Scope}
    (hs : ScopeTwin p scope scope') :
    Tracks (Twin p lost) (ScopeTwin p) (enterNamespace tree node scope)
      (enterNamespace other node' scope') := by
  rw [enterNamespace_eq, enterNamespace_eq]
  refine (ofExcept_tracks_eq h).bind fun segments _ hread => ?_
  subst hread
  exact enterSegments_tracks hp hid _ hs

end

/-- Fields without attributes are told apart by nothing that the pairing is about. -/
theorem plainField_twin (name : String) (owner : TypePath) (isStatic isConst nameable : Bool)
    (site site' : Site) : FieldTwin p ⟨name, owner, isStatic, isConst, nameable, site, none, []⟩
      ⟨name, owner, isStatic, isConst, nameable, site', none, []⟩ :=
  ⟨rfl, rfl, rfl, rfl, rfl, .none, .nil⟩

theorem SameHeader.declareType {tree other : SourceTree} {node node' : Node}
    (h : SameHeader p tree other node node') (hp : p.OneToOne)
    (hk : node.kind.isTypeDeclaration = true) {scope scope' : Scope}
    (hs : ScopeTwin p scope scope') (kind : TypeKind) (within : Option TypePath) :
    Tracks (Twin p lost) (fun t t' => t' = t) (declareType tree node kind scope within)
      (declareType other node' kind scope' within) := by
  refine (ofExcept_tracks_eq h.declaredName).bind fun name _ hn => ?_
  refine (ofExcept_tracks_eq h.typeParameters).bind fun parameters _ hps => ?_
  subst hn hps
  rw [hs.home_eq]
  refine (addDeclaration_tracks _ _ _ _ _).bind fun _ _ _ => ?_
  refine (addBase_tracks hs h.baseName? _).bind fun _ _ _ => ?_
  exact (putNodeType_tracks hp (h.key (.inl hk)) _).bind fun _ _ _ => .pure rfl

namespace SameDeclaration

variable {tree other : SourceTree} {node node' : Node}
  (h : SameDeclaration p tree other node node')

include h

section

variable {scope scope' : Scope} (hs : ScopeTwin p scope scope')

include hs

theorem declareUsing (hk : node.kind = .usingDirective) :
    Tracks (Twin p lost) (fun _ _ => True) (declareUsing tree node scope)
      (declareUsing other node' scope') := by
  rw [declareUsing_eq, declareUsing_eq]
  refine (ofExcept_tracks (h.directive hk)).bind fun d d' hd => .of_modify fun table table' ht => ?_
  cases hd with
  | none => exact ht
  | @some d d' hd =>
    obtain ⟨aliasName, target⟩ := d
    obtain ⟨aliasName', target'⟩ := d'
    obtain ⟨rfl, htarget⟩ := hd
    refine { ht with usings := ht.usings.append (.keep ⟨?_, rfl, h.hasChild _, htarget⟩ .nil) }
    rw [h.hasChild]
    split
    · exact .none
    · cases hs with
      | nil => exact .none
      | cons hf _ => exact .some hf.mark

theorem declareFields (hk : node.kind = .fieldDeclaration) (owner : TypePath) :
    Tracks (Twin p lost) (fun _ _ => True) (declareFields tree node scope owner)
      (declareFields other node' scope' owner) := by
  refine (ofExcept_tracks_eq h.modifiers).bind fun modifiers _ hm => ?_
  subst hm
  have hattributes : List.Forall₂ (ReferenceTwin p)
      (node.attributeNames.map fun name => ⟨⟨tree, name⟩, scope, some owner⟩)
      (node'.attributeNames.map fun name => ⟨⟨other, name⟩, scope', some owner⟩) := by
    rw [List.forall₂_map_left_iff, List.forall₂_map_right_iff]
    exact h.attributeNames.imp fun name name' hname => ⟨hname, hs, rfl⟩
  refine .forM (h.declarators.imp fun d d' hd => ?_)
  refine (ofExcept_tracks_eq hd).bind fun name _ hn => ?_
  subst hn
  exact addField_tracks ⟨rfl, rfl, rfl, rfl, rfl, .some (h.key (.inr hk)), hattributes⟩

end

theorem declareBackingField (owner : TypePath) : Tracks (Twin p lost) (fun _ _ => True)
    (declareBackingField tree node owner) (declareBackingField other node' owner) := by
  refine (ofExcept_tracks_eq h.modifiers).bind fun modifiers _ hm => ?_
  refine (kindOf_tracks owner).bind fun kind _ hkind => ?_
  subst hm hkind
  rw [h.isAutoProperty]
  split
  · refine (ofExcept_tracks_eq h.declaredName).bind fun name _ hn => ?_
    subst hn
    exact addField_tracks (plainField_twin ..)
  · exact .pure trivial

theorem declareEventFields (owner : TypePath) : Tracks (Twin p lost) (fun _ _ => True)
    (declareEventFields tree node owner) (declareEventFields other node' owner) := by
  refine (ofExcept_tracks_eq h.modifiers).bind fun modifiers _ hm => ?_
  refine (kindOf_tracks owner).bind fun kind _ hkind => ?_
  subst hm hkind
  split
  · refine .forM (h.declarators.imp fun d d' hd => ?_)
    refine (ofExcept_tracks_eq hd).bind fun name _ hn => ?_
    subst hn
    exact addField_tracks (plainField_twin ..)
  · exact .pure trivial

end SameDeclaration

/-! ## Trees -/

section

variable {tree other : SourceTree}

/-- The storage of a member is declared alike inside the same type, and not at all outside. -/
theorem optional_tracks {x y : TypePath → Declare PUnit}
    (h : ∀ t, Tracks (Twin p lost) (fun _ _ => True) (x t) (y t)) (within : Option TypePath) :
    Tracks (Twin p lost) (fun _ _ => True) (within.forM x) (within.forM y) := by
  cases within with
  | none => exact .pure trivial
  | some t => exact h t

mutual

theorem declareMember_tracks (hp : p.OneToOne) (hid : p.ids tree.id other.id) :
    ∀ (node node' : Node) (scope scope' : Scope) (within : Option TypePath),
    NodeTwin p tree other node node' → ScopeTwin p scope scope' →
    Tracks (Twin p lost) (ScopeTwin p) (declareMember tree scope within node)
      (declareMember other scope' within node')
  | .mk kind named missing start stop label children,
    .mk kind' named' missing' start' stop' label' children' => by
    intro scope scope' within hn hs
    obtain ⟨same, hchildren⟩ := hn
    obtain rfl : kind' = kind := same.kind
    cases kind' with
    | usingDirective => exact (same.declareUsing hs rfl).bind fun _ _ _ => .pure hs
    | fieldDeclaration =>
      exact (optional_tracks (same.declareFields hs rfl) within).bind fun _ _ _ => .pure hs
    | propertyDeclaration =>
      exact (optional_tracks same.declareBackingField within).bind fun _ _ _ => .pure hs
    | eventFieldDeclaration =>
      exact (optional_tracks same.declareEventFields within).bind fun _ _ _ => .pure hs
    | namespaceDeclaration =>
      rw [declareMember, declareMember]
      refine (enterNamespace_tracks hp hid same.segments hs).bind fun inner inner' hi => ?_
      exact (declareBody_tracks hp hid children children' inner inner' none hchildren hi).bind
        fun _ _ _ => .pure hs
    | fileScopedNamespace =>
      rw [declareMember, declareMember]
      refine (enterNamespace_tracks hp hid same.segments hs).bind fun inner inner' hi => ?_
      exact (declareMembers_tracks hp hid children children' inner inner' none hchildren hi).bind
        fun _ _ _ => .pure hi
    | typeDeclaration type =>
      rw [declareMember, declareMember, same.typeKind?]
      refine (same.declareType hp rfl hs _ within).bind fun t _ ht => ?_
      subst ht
      refine (kindOf_tracks _).bind fun kind _ hk => ?_
      subst hk
      split
      · exact (declareBody_tracks hp hid children children' scope scope' _ hchildren hs).bind
          fun _ _ _ => .pure hs
      · exact .pure hs
    | wrapper w =>
      rw [declareMember, declareMember]
      exact (declareMembers_tracks hp hid children children' scope scope' within hchildren hs).bind
        fun _ _ _ => .pure hs
    | _ =>
      simp only [declareMember]
      exact .pure hs

theorem declareMembers_tracks (hp : p.OneToOne) (hid : p.ids tree.id other.id) :
    ∀ (nodes nodes' : List Node) (scope scope' : Scope) (within : Option TypePath),
    List.Forall₂ (NodeTwin p tree other) nodes nodes' → ScopeTwin p scope scope' →
    Tracks (Twin p lost) (fun _ _ => True) (declareMembers tree scope within nodes)
      (declareMembers other scope' within nodes')
  | [], _ => by
    intro scope scope' within hn _
    cases hn
    rw [declareMembers, declareMembers]
    exact .pure trivial
  | node :: rest, _ => by
    intro scope scope' within hn hs
    obtain ⟨node', rest', hnode, hrest, rfl⟩ := List.forall₂_cons_left_iff.mp hn
    rw [declareMembers, declareMembers]
    exact (declareMember_tracks hp hid node node' scope scope' within hnode hs).bind
      fun inner inner' hi => declareMembers_tracks hp hid rest rest' inner inner' within hrest hi

theorem declareBody_tracks (hp : p.OneToOne) (hid : p.ids tree.id other.id) :
    ∀ (nodes nodes' : List Node) (scope scope' : Scope) (within : Option TypePath),
    List.Forall₂ (NodeTwin p tree other) nodes nodes' → ScopeTwin p scope scope' →
    Tracks (Twin p lost) (fun _ _ => True) (declareBody tree scope within nodes)
      (declareBody other scope' within nodes')
  | [], _ => by
    intro scope scope' within hn _
    cases hn
    rw [declareBody, declareBody]
    exact .pure trivial
  | .mk kind named missing start stop label children :: rest, _ => by
    intro scope scope' within hn hs
    obtain ⟨⟨kind', named', missing', start', stop', label', children'⟩, rest', ⟨same, hchildren⟩,
      hrest, rfl⟩ := List.forall₂_cons_left_iff.mp hn
    obtain rfl : kind' = kind := same.kind
    rw [declareBody, declareBody]
    split
    · exact declareMembers_tracks hp hid children children' scope scope' within hchildren hs
    · exact declareBody_tracks hp hid rest rest' scope scope' within hrest hs

end

end

variable (p) in
/-- Two trees that are paired and in which every node says the same as its counterpart. -/
structure TreeTwin (tree other : SourceTree) : Prop where
  id : p.ids tree.id other.id
  root : NodeTwin p tree other tree.root other.root

theorem declareTree_tracks (hp : p.OneToOne) {tree other : SourceTree}
    (h : TreeTwin p tree other) :
    Tracks (Twin p lost) (fun _ _ => True) (declareTree tree) (declareTree other) := by
  refine (openFrame_tracks hp h.id .global true).bind fun frame frame' hf => ?_
  obtain ⟨-, hchildren⟩ := h.root
  exact declareMembers_tracks hp h.id _ _ _ _ none hchildren (.cons hf .nil)

/-- **Trees that correspond are declared alike.** -/
theorem declareTrees_tracks (hp : p.OneToOne) {trees others : List SourceTree}
    (h : List.Forall₂ (TreeTwin p) trees others) :
    Tracks (Twin p lost) (fun _ _ => True) (declareTrees trees) (declareTrees others) :=
  .forM (h.imp fun _ _ ht => declareTree_tracks hp ht)

end

end PrintGen.Symbols
