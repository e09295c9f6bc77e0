import PrintGen.Proofs.Agreement
import PrintGen.Proofs.Scopes

/-!
# Tables seen through a view

A table keeps nodes and the trees that they stand in. A view shows trees and nodes in another form.
Where a declaration says the same in the view, declaring what the view shows does to the view of the
table what declaring the node does to the table (`Shows`). Two runs that look the same in a view
come to tables that look the same (`Concur`), and these are bound to the same.
-/

namespace PrintGen

/-! ## Computations on a view of the state -/

section

variable {ε σ α β γ δ : Type}

/-- A result seen through a view of the value and one of the state. -/
def showResult (f : α → β) (g : σ → σ) : EStateM.Result ε σ α → EStateM.Result ε σ β
  | .ok a s => .ok (f a) (g s)
  | .error e s => .error e (g s)

/-- Started in the view of a state, the second computation comes to the view of what the first one
comes to. -/
def Shows (g : σ → σ) (f : α → β) (x : EStateM ε σ α) (y : EStateM ε σ β) : Prop :=
  ∀ s, y (g s) = showResult f g (x s)

namespace Shows

variable {g : σ → σ}

theorem pure {f : α → β} (a : α) :
    Shows g f (Pure.pure a : EStateM ε σ α) (Pure.pure (f a)) :=
  fun _ => rfl

theorem bind {f : α → β} {k : γ → δ} {x : EStateM ε σ α} {y : EStateM ε σ β}
    {next : α → EStateM ε σ γ} {next' : β → EStateM ε σ δ} (hx : Shows g f x y)
    (hn : ∀ a, Shows g k (next a) (next' (f a))) : Shows g k (x >>= next) (y >>= next') := by
  intro s
  simp only [Bind.bind, EStateM.bind, hx s]
  cases x s with
  | ok a t => exact hn a t
  | error e t => rfl

theorem of_modify {h h' : σ → σ} (hg : ∀ s, h' (g s) = g (h s)) :
    Shows g id (modify h : EStateM ε σ PUnit) (modify h') :=
  fun s => congrArg (EStateM.Result.ok PUnit.unit) (hg s)

theorem forM {f : α → β} {step : α → EStateM ε σ PUnit} {step' : β → EStateM ε σ PUnit}
    {as : List α} (h : ∀ a ∈ as, Shows g id (step a) (step' (f a))) :
    Shows g id (as.forM step) ((as.map f).forM step') := by
  induction as with
  | nil => exact pure PUnit.unit
  | cons a rest ih =>
    obtain ⟨ha, hrest⟩ := List.forall_mem_cons.mp h
    exact bind ha fun _ => ih hrest

end Shows

/-- Started in states that look the same, both computations come to the same value or to the same
fault, and to states that look the same. -/
def Concur (g : σ → σ) (x y : EStateM ε σ α) : Prop :=
  ∀ s t, g s = g t → showResult id g (x s) = showResult id g (y t)

namespace Concur

variable {g : σ → σ}

theorem of_shows {x y z : EStateM ε σ α} (hx : Shows g id x z) (hy : Shows g id y z) :
    Concur g x y := by
  intro s t h
  rw [← hx s, ← hy t, h]

theorem pure (a : α) : Concur g (Pure.pure a : EStateM ε σ α) (Pure.pure a) :=
  fun _ _ h => congrArg (EStateM.Result.ok a) h

theorem bind {x y : EStateM ε σ α} {next next' : α → EStateM ε σ β} (hx : Concur g x y)
    (hn : ∀ a, Concur g (next a) (next' a)) : Concur g (x >>= next) (y >>= next') := by
  intro s t h
  have hst := hx s t h
  simp only [Bind.bind, EStateM.bind]
  cases hs : x s with
  | ok a s' =>
    cases ht : y t with
    | ok b t' =>
      rw [hs, ht] at hst
      obtain ⟨rfl, hview⟩ := EStateM.Result.ok.inj hst
      exact hn a s' t' hview
    | error e t' =>
      rw [hs, ht] at hst
      cases hst
  | error e s' =>
    cases ht : y t with
    | ok b t' =>
      rw [hs, ht] at hst
      cases hst
    | error e' t' =>
      rw [hs, ht] at hst
      obtain ⟨rfl, hview⟩ := EStateM.Result.error.inj hst
      exact congrArg (EStateM.Result.error e) hview

end Concur

end

namespace Symbols

open Syntax

/-! ## Views -/

/-- Another form of trees and nodes, in which a tree has the same text and a node the same kind and
place. -/
structure View where
  tree : SourceTree → SourceTree
  node : Node → Node
  tree_id : ∀ t, (tree t).id = t.id
  tree_path : ∀ t, (tree t).path = t.path
  tree_content : ∀ t, (tree t).content = t.content
  node_kind : ∀ n, (node n).kind = n.kind
  node_start : ∀ n, (node n).start = n.start
  node_stop : ∀ n, (node n).stop = n.stop

namespace View

variable (v : View)

theorem text (tree : SourceTree) (node : Node) :
    (v.tree tree).text (v.node node) = tree.text node := by
  rw [SourceTree.text, v.tree_content, v.node_start, v.node_stop, SourceTree.text]

theorem textOf? (tree : SourceTree) (node : Option Node) :
    (v.tree tree).textOf? (node.map v.node) = tree.textOf? node := by
  cases node with
  | none => rfl
  | some node => exact v.text tree node

theorem texts (tree : SourceTree) (nodes : List Node) :
    (v.tree tree).texts (nodes.map v.node) = tree.texts nodes := by
  rw [SourceTree.texts, List.mapM_map, SourceTree.texts]
  exact mapM_congr_mem fun node _ => v.text tree node

theorem key (tree : SourceTree) (node : Node) :
    (v.tree tree).key (v.node node) = tree.key node := by
  rw [SourceTree.key, v.tree_id, v.node_start, v.node_stop, v.node_kind, SourceTree.key]

theorem locationOf (tree : SourceTree) (node : Node) :
    (v.tree tree).locationOf (v.node node) = tree.locationOf node := by
  rw [SourceTree.locationOf, v.tree_content, v.node_start, SourceTree.locationOf]

/-- A site in a view. -/
def site (s : Site) : Site :=
  ⟨v.tree s.tree, v.node s.node⟩

/-- A using directive in a view. -/
def directive (u : Using) : Using :=
  { u with tree := v.tree u.tree, target := v.node u.target }

/-- A name to be bound, in a view. -/
def reference (r : Reference) : Reference :=
  { r with site := v.site r.site }

/-- A field in a view. -/
def field (f : FieldEntry) : FieldEntry :=
  { f with site := v.site f.site, attributes := f.attributes.map v.reference }

/-- A type in a view. -/
def type (e : TypeEntry) : TypeEntry :=
  { e with declarations := e.declarations.map v.site }

/-- A base in a view. -/
def base (b : BaseReference) : BaseReference :=
  ⟨b.type, v.reference b.name⟩

/-- A table in a view: its symbols, levels and node keys stay, only the nodes that it keeps are
shown in the other form. -/
def table (table : Table) : Table :=
  { table with
    types := table.types.map v.type
    fields := table.fields.map v.field
    usings := table.usings.map v.directive
    bases := table.bases.map v.base }

variable (table : Table)

theorem table_entryOf? (t : TypePath) :
    (v.table table).entryOf? t = (table.entryOf? t).map v.type :=
  List.find?_map ..

theorem table_hasType (t : TypePath) : (v.table table).hasType t = table.hasType t :=
  List.any_map ..

theorem table_memberType? (c : Entity) (s : Segment) :
    (v.table table).memberType? c s = table.memberType? c s := by
  cases c with
  | ofNamespace n => rw [Table.memberType?, Table.memberType?, Table.type?, Table.type?,
      v.table_hasType]
  | ofType t => rw [Table.memberType?, Table.memberType?, Table.type?, Table.type?,
      v.table_hasType]

theorem table_usingsOf (frame : Frame) :
    (v.table table).usingsOf frame = (table.usingsOf frame).map v.directive := by
  have hfilter : ∀ mark, (v.table table).usings.filter (fun u => u.frame = mark) =
      (table.usings.filter fun u => u.frame = mark).map v.directive :=
    fun mark => List.filter_map ..
  rw [Table.usingsOf, Table.usingsOf, hfilter, hfilter, List.map_append]
  split <;> rfl

theorem table_attributes : (v.table table).attributes = table.attributes.map v.reference := by
  rw [Table.attributes, Table.attributes, List.map_flatMap]
  exact List.flatMap_map ..

theorem table_marks : (v.table table).usings.map Using.mark = table.usings.map Using.mark :=
  List.map_map ..

theorem table_isAttributeClass (bases : List (TypePath × Option TypePath)) :
    isAttributeClass (v.table table) bases = isAttributeClass table bases := by
  have hlineage : lineageIn (v.table table) bases = lineageIn table bases := by
    funext t
    rw [lineageIn, lineageIn, v.table_entryOf?, Option.map_map]
    rfl
  have hlength : (v.table table).types.length = table.types.length := List.length_map ..
  funext t
  rw [isAttributeClass, isAttributeClass, hlineage, hlength]

/-! ## Steps of the declaration pass -/

theorem ofExcept_shows {α : Type} (w : Except Fault α) :
    Shows v.table id (Declare.ofExcept w) (Declare.ofExcept w) := by
  cases w <;> exact fun _ => rfl

theorem openFrame_shows (tree : SourceTree) (home : Namespace) (isFile : Bool) :
    Shows v.table id (openFrame tree home isFile) (openFrame (v.tree tree) home isFile) := by
  rw [openFrame, openFrame, v.tree_id]
  exact fun _ => rfl

theorem addNamespace_shows (n : Namespace) :
    Shows v.table id (addNamespace n) (addNamespace n) := by
  refine Shows.of_modify fun table => ?_
  have hsame : (v.table table).hasNamespace n = table.hasNamespace n := rfl
  rw [hsame]
  split <;> rfl

theorem enterSegments_shows (tree : SourceTree) (segments : List Segment) (scope : Scope) :
    Shows v.table id (enterSegments tree segments scope)
      (enterSegments (v.tree tree) segments scope) := by
  induction segments generalizing scope with
  | nil => exact Shows.pure scope
  | cons s rest ih =>
    rw [enterSegments, enterSegments]
    refine Shows.bind (v.addNamespace_shows _) fun _ => ?_
    exact Shows.bind (v.openFrame_shows tree _ _) fun frame => ih (frame :: scope)

theorem addDeclaration_shows (t : TypePath) (kind : TypeKind) (parameters : List String)
    (site : Site) :
    Shows v.table id (addDeclaration t kind parameters site)
      (addDeclaration t kind parameters (v.site site)) := by
  refine Shows.of_modify fun table => ?_
  have hentry : ∀ e : TypeEntry,
      (if (v.type e).path = t then
        { v.type e with declarations := (v.type e).declarations ++ [v.site site] }
      else v.type e) =
      v.type (if e.path = t then { e with declarations := e.declarations ++ [site] } else e) := by
    intro e
    by_cases he : e.path = t
    · rw [if_pos he, if_pos (show (v.type e).path = t from he)]
      simp [type]
    · rw [if_neg he, if_neg (show ¬(v.type e).path = t from he)]
  rw [v.table_hasType]
  split
  · simp only [View.table, List.map_map, Function.comp_def, hentry]
  · simp [View.table, type]

theorem addBase_shows (t : TypePath) (tree : SourceTree) (base : Option Node) (scope : Scope) :
    Shows v.table id (addBase t tree base scope)
      (addBase t (v.tree tree) (base.map v.node) scope) := by
  cases base with
  | none => exact Shows.pure ()
  | some name =>
    refine Shows.of_modify fun table => ?_
    have hany : (v.table table).bases.any (fun b => b.type = t) =
        table.bases.any fun b => b.type = t := List.any_map ..
    rw [hany]
    split
    · rfl
    · simp [View.table, View.base, reference, site]

theorem addField_shows (field : FieldEntry) :
    Shows v.table id (addField field) (addField (v.field field)) := by
  refine Shows.of_modify fun table => ?_
  simp [View.table]

theorem kindOf_shows (t : TypePath) : Shows v.table id (kindOf t) (kindOf t) := by
  intro table
  have hkind : ((v.table table).entryOf? t).map TypeEntry.kind =
      (table.entryOf? t).map TypeEntry.kind := by
    rw [v.table_entryOf?, Option.map_map]
    rfl
  exact congrArg (EStateM.Result.ok · (v.table table)) hkind

end View

/-! ## Declarations that say the same -/

theorem declareUsing_eq (tree : SourceTree) (node : Node) (scope : Scope) :
    declareUsing tree node scope = (Declare.ofExcept (directiveOf tree node) >>= fun d =>
      modify fun table => table.withDirective tree node scope d) := by
  rw [declareUsing, directiveOf]
  split
  · rfl
  · cases usingAlias tree node (usingNames node.children) with
    | error fault => rfl
    | ok found =>
      obtain ⟨aliasName, names⟩ := found
      simp only [Declare.ofExcept, pure_bind, except_ok_bind]
      cases names.getLast? <;> rfl

theorem enterNamespace_eq (tree : SourceTree) (node : Node) (scope : Scope) :
    enterNamespace tree node scope = (Declare.ofExcept (segmentsOf tree node) >>= fun segments =>
      enterSegments tree segments scope) := by
  rw [enterNamespace, segmentsOf]
  cases namespaceName? node with
  | none => rfl
  | some nameNode =>
    dsimp only
    cases tree.nameOf nameNode <;> rfl

/-- All that is read of a declaration is the same in a view. -/
structure View.Reads (v : View) (tree : SourceTree) (node : Node) : Prop where
  declaredName : (v.tree tree).declaredName (v.node node) = tree.declaredName node
  typeParameters : (v.tree tree).typeParameters (v.node node) = tree.typeParameters node
  modifiers : (v.tree tree).modifiers (v.node node) = tree.modifiers node
  typeKind? : (v.node node).typeKind? = node.typeKind?
  isAutoProperty : (v.node node).isAutoProperty = node.isAutoProperty
  baseName? : (v.node node).baseName? = node.baseName?.map v.node
  attributeNames : (v.node node).attributeNames = node.attributeNames.map v.node
  declarators? : (v.node node).declarators? = node.declarators?.map (List.map v.node)
  declaratorNames : ∀ declarator ∈ node.declarators?.getD [],
    (v.tree tree).declaredName (v.node declarator) = tree.declaredName declarator
  directive : node.kind = .usingDirective → directiveOf (v.tree tree) (v.node node) =
    (directiveOf tree node).map (Option.map (Prod.map id v.node))
  isGlobal : (v.node node).hasChild .globalToken = node.hasChild .globalToken
  isStatic : (v.node node).hasChild .staticToken = node.hasChild .staticToken
  segments : node.kind = .namespaceDeclaration ∨ node.kind = .fileScopedNamespace →
    segmentsOf (v.tree tree) (v.node node) = segmentsOf tree node

namespace View.Reads

variable {v : View} {tree : SourceTree} {node : Node} (h : v.Reads tree node)

include h

theorem declareUsing (hk : node.kind = .usingDirective) (scope : Scope) :
    Shows v.table id (declareUsing tree node scope)
      (declareUsing (v.tree tree) (v.node node) scope) := by
  rw [declareUsing_eq, declareUsing_eq, h.directive hk]
  cases directiveOf tree node with
  | error fault => exact fun _ => rfl
  | ok d =>
    refine Shows.of_modify fun table => ?_
    cases d with
    | none => rfl
    | some found =>
      simp only [Table.withDirective, v.tree_id, v.table_marks, h.isGlobal, h.isStatic]
      simp [View.table, View.directive]

theorem enterNamespace
    (hk : node.kind = .namespaceDeclaration ∨ node.kind = .fileScopedNamespace) (scope : Scope) :
    Shows v.table id (enterNamespace tree node scope)
      (enterNamespace (v.tree tree) (v.node node) scope) := by
  rw [enterNamespace_eq, enterNamespace_eq, h.segments hk]
  exact Shows.bind (v.ofExcept_shows _) fun segments => v.enterSegments_shows tree segments scope

theorem declareType (kind : TypeKind) (scope : Scope) (within : Option TypePath) :
    Shows v.table id (declareType tree node kind scope within)
      (declareType (v.tree tree) (v.node node) kind scope within) := by
  rw [Symbols.declareType, Symbols.declareType, h.declaredName, h.typeParameters, h.baseName?,
    v.key]
  refine Shows.bind (v.ofExcept_shows _) fun name => ?_
  refine Shows.bind (v.ofExcept_shows _) fun parameters => ?_
  refine Shows.bind (v.addDeclaration_shows _ _ _ ⟨tree, node⟩) fun _ => ?_
  refine Shows.bind (v.addBase_shows _ tree _ _) fun _ => ?_
  exact Shows.bind (Shows.of_modify fun _ => rfl) fun _ => Shows.pure _

theorem declarators :
    (v.node node).declarators?.getD [] = (node.declarators?.getD []).map v.node := by
  rw [h.declarators?]
  cases node.declarators? <;> rfl

theorem declareFields (scope : Scope) (owner : TypePath) :
    Shows v.table id (declareFields tree node scope owner)
      (declareFields (v.tree tree) (v.node node) scope owner) := by
  have hattributes : (node.attributeNames.map v.node).map
        (fun name => (⟨⟨v.tree tree, name⟩, scope, some owner⟩ : Reference)) =
      (node.attributeNames.map fun name => (⟨⟨tree, name⟩, scope, some owner⟩ : Reference)).map
        v.reference := by
    rw [List.map_map, List.map_map]
    rfl
  simp only [Symbols.declareFields, h.modifiers, h.attributeNames, hattributes, h.declarators,
    v.key]
  refine Shows.bind (v.ofExcept_shows _) fun modifiers => Shows.forM fun declarator hd => ?_
  rw [h.declaratorNames declarator hd]
  exact Shows.bind (v.ofExcept_shows _) fun name => v.addField_shows _

theorem declareBackingField (owner : TypePath) :
    Shows v.table id (declareBackingField tree node owner)
      (declareBackingField (v.tree tree) (v.node node) owner) := by
  rw [Symbols.declareBackingField, Symbols.declareBackingField, h.modifiers, h.isAutoProperty,
    h.declaredName]
  refine Shows.bind (v.ofExcept_shows _) fun modifiers => ?_
  refine Shows.bind (v.kindOf_shows owner) fun kind => ?_
  simp only [id_eq]
  split
  · exact Shows.bind (v.ofExcept_shows _) fun name => v.addField_shows _
  · exact Shows.pure ()

theorem declareEventFields (owner : TypePath) :
    Shows v.table id (declareEventFields tree node owner)
      (declareEventFields (v.tree tree) (v.node node) owner) := by
  rw [Symbols.declareEventFields, Symbols.declareEventFields, h.modifiers, h.declarators]
  refine Shows.bind (v.ofExcept_shows _) fun modifiers => ?_
  refine Shows.bind (v.kindOf_shows owner) fun kind => ?_
  simp only [id_eq]
  split
  · refine Shows.forM fun declarator hd => ?_
    rw [h.declaratorNames declarator hd]
    exact Shows.bind (v.ofExcept_shows _) fun name => v.addField_shows _
  · exact Shows.pure ()

end View.Reads

/-! ## Binding names -/

/-- A name is read as the same in a view. -/
def View.ReadsName (v : View) (tree : SourceTree) (name : Node) : Prop :=
  (v.tree tree).nameOf (v.node name) = tree.nameOf name

/-- A model in a view. -/
def View.model (v : View) (m : Model) : Model :=
  { m with table := v.table m.table }

section

variable {v : View}

theorem View.ReadsName.reference {r : Reference} (h : v.ReadsName r.site.tree r.site.node) :
    SameReference r (v.reference r) :=
  ⟨h, rfl, rfl⟩

/-- Where names are read as the same, lookups find the same in the view of a table. -/
theorem View.mirror {table : Table} {registered : Scope → Prop}
    (ha : Anchored table [] registered) (hn : Names v.ReadsName table) :
    TableMirror table (v.table table) v.directive v.reference (fun _ => True) registered := by
  have hsame : SameSymbols table (v.table table) fun _ => True :=
    ⟨fun _ => rfl, fun c s _ => v.table_memberType? table c s⟩
  exact {
    toSameSymbols := hsame
    levels := ha.toScoped
    levels_other := ⟨ha.outer, ha.mark, ha.file, (v.table_marks table).symm ▸ ha.marks⟩
    usings := v.table_usingsOf table
    aliases := fun _ => rfl
    statics := fun _ => rfl
    targets := fun u hu => hsame.readTarget (hn.usings u hu) (v.text u.tree u.target)
      fun _ _ _ _ => trivial
    bases := rfl
    attributes := v.table_attributes table
    baseNames := fun b hb => ⟨View.ReadsName.reference (hn.bases b hb), ha.bases b hb,
      fun _ _ _ _ => ⟨trivial, trivial⟩⟩
    attributeNames := fun r hr => by
      obtain ⟨f, hf, hrf⟩ := List.mem_flatMap.mp hr
      exact ⟨View.ReadsName.reference (hn.attributes f hf r hrf), ha.attributes f hf r hrf,
        fun _ _ _ _ => trivial⟩
    classes := fun bound => v.table_isAttributeClass table _
    classMembers := fun bound s => hsame.sameMembers trivial _ }

/-- **The view of a table is bound to the same,** as long as names are read as the same. -/
theorem View.bindTable {trees : List SourceTree} {table : Table}
    (hd : DeclaresTrees trees .empty table) (hn : Names v.ReadsName table) :
    (bindTable (v.table table)).model = v.model (bindTable table).model ∧
      (bindTable (v.table table)).fault = (bindTable table).fault := by
  obtain ⟨registered, ha⟩ := hd.settled settled_empty
  obtain ⟨hbases, hclasses, hfault⟩ := (View.mirror ha hn).bindTable
  refine ⟨?_, hfault⟩
  rw [View.model, bindTable_table, ← hbases, ← hclasses]
  exact congrArg (Model.mk · _ _) (bindTable_table (v.table table))

/-- **Two compilations that are declared alike have models that look the same,** and they stop at
the same fault if they do. -/
theorem build_concur (hn : ∀ tree name, v.ReadsName tree name) {trees others : List SourceTree}
    (h : Concur v.table (declareTrees trees) (declareTrees others)) :
    v.model (build others).model = v.model (build trees).model ∧
      (build others).fault = (build trees).fault := by
  have hrun := h .empty .empty rfl
  have hall : ∀ table, Names v.ReadsName table := fun table =>
    ⟨fun u _ => hn u.tree u.target, fun b _ => hn b.name.site.tree b.name.site.node,
      fun _ _ r _ => hn r.site.tree r.site.node⟩
  cases hd : declareTrees trees .empty with
  | error fault table =>
    cases hd' : declareTrees others .empty with
    | ok u last =>
      rw [hd, hd'] at hrun
      cases hrun
    | error fault' last =>
      rw [hd, hd'] at hrun
      obtain ⟨rfl, hview⟩ := EStateM.Result.error.inj hrun
      rw [build, hd', build, hd]
      exact ⟨congrArg (Model.mk · [] []) hview.symm, rfl⟩
  | ok u table =>
    cases hd' : declareTrees others .empty with
    | error fault last =>
      rw [hd, hd'] at hrun
      cases hrun
    | ok u' last =>
      rw [hd, hd'] at hrun
      obtain ⟨-, hview⟩ := EStateM.Result.ok.inj hrun
      have hdeclares := declareTrees_iff.mp hd
      have hdeclares' := declareTrees_iff.mp hd'
      obtain ⟨hf, hm⟩ := build_declared hdeclares
      obtain ⟨hf', hm'⟩ := build_declared hdeclares'
      obtain ⟨hmodel, hfault⟩ := View.bindTable hdeclares (hall table)
      obtain ⟨hmodel', hfault'⟩ := View.bindTable hdeclares' (hall last)
      rw [hf, hf', hm, hm', ← hmodel, ← hmodel', ← hfault, ← hfault', hview]
      exact ⟨rfl, rfl⟩

end

end Symbols

end PrintGen
