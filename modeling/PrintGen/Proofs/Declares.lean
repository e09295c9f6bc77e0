import PrintGen.Proofs.Outcome
import PrintGen.Proofs.Preorder
import PrintGen.Symbols.Model

/-!
# What the declaration pass does to the table

Every step of the pass is a plain update of the table, with names that were read beforehand. The
relation `Declares` puts the steps together: one rule for each role that a node can play. It holds
exactly of the runs that return, so a fact about the pass is proved by induction on the rules, and
no later proof opens the pass itself.
-/

namespace PrintGen.Symbols

open Syntax

/-- The members of the body of a declaration. -/
def members (node : Node) : List Node :=
  (node.body?.map Node.children).getD []

/-- Whether a node of this kind may add fields to the type around it. -/
def isStorage : Kind → Bool
  | .fieldDeclaration | .propertyDeclaration | .eventFieldDeclaration => true
  | _ => false

/-- Whether a node of this kind declares something wherever it stands, or holds such nodes. -/
def isOpening : Kind → Bool
  | .usingDirective | .namespaceDeclaration | .fileScopedNamespace | .typeDeclaration _ => true
  | .wrapper _ => true
  | _ => false

/-! ## What a node says -/

/-- The alias and the target of a using directive, if it has a target. -/
def directiveOf (tree : SourceTree) (node : Node) : Except Fault (Option (Option String × Node)) :=
  if (usingNames node.children).isEmpty then .ok none
  else do
    let (aliasName, names) ← usingAlias tree node (usingNames node.children)
    return names.getLast?.map fun target => (aliasName, target)

/-- The segments of the name of a namespace. -/
def segmentsOf (tree : SourceTree) (node : Node) : Except Fault (List Segment) :=
  match namespaceName? node with
  | none => .ok []
  | some nameNode => do
    let name ← tree.nameOf nameNode
    return name.segments

/-- The path of the type that a node declares at this point. -/
def pathOf (scope : Scope) (within : Option TypePath) (own : Segment) : TypePath :=
  match within with
  | some outer => .nested outer own
  | none => .top scope.home own

/-- The type that a node declares, and its type parameters. -/
def typeOf (tree : SourceTree) (node : Node) (scope : Scope) (within : Option TypePath) :
    Except Fault (TypePath × List String) := do
  let name ← tree.declaredName node
  let parameters ← tree.typeParameters node
  return (pathOf scope within ⟨name, parameters.length⟩, parameters)

/-- One field per declarator of a field declaration. -/
def plainField (tree : SourceTree) (node : Node) (scope : Scope) (owner : TypePath)
    (modifiers : List String) (declarator : Node) : Except Fault FieldEntry := do
  let name ← tree.declaredName declarator
  return ⟨name, owner, modifiers.contains "const" || modifiers.contains "static",
    modifiers.contains "const", true, ⟨tree, declarator⟩, some (tree.key node),
    node.attributeNames.map fun name => ⟨⟨tree, name⟩, scope, some owner⟩⟩

/-- One field per declarator of an event declaration. -/
def eventField (tree : SourceTree) (owner : TypePath) (modifiers : List String)
    (declarator : Node) : Except Fault FieldEntry := do
  let name ← tree.declaredName declarator
  return ⟨name, owner, modifiers.contains "static", false, true, ⟨tree, declarator⟩, none, []⟩

/-- The field behind an automatic property. -/
def backingField (tree : SourceTree) (node : Node) (owner : TypePath) (modifiers : List String) :
    Except Fault FieldEntry := do
  let name ← tree.declaredName node
  return ⟨"<" ++ name ++ ">k__BackingField", owner, modifiers.contains "static", false, false,
    ⟨tree, node⟩, none, []⟩

/-- The fields that a member adds to its type, which is of the given kind. -/
def storedFields (tree : SourceTree) (scope : Scope) (owner : TypePath) (kind : Option TypeKind)
    (node : Node) : Except Fault (List FieldEntry) :=
  match node.kind with
  | .fieldDeclaration => do
    let modifiers ← tree.modifiers node
    (node.declarators?.getD []).mapM (plainField tree node scope owner modifiers)
  | .propertyDeclaration => do
    let modifiers ← tree.modifiers node
    if node.isAutoProperty && hasStorage kind modifiers then do
      let field ← backingField tree node owner modifiers
      return [field]
    else return []
  | .eventFieldDeclaration => do
    let modifiers ← tree.modifiers node
    if hasStorage kind modifiers then
      (node.declarators?.getD []).mapM (eventField tree owner modifiers)
    else return []
  | _ => .ok []

/-! ## Updates of the table -/

namespace Table

/-- The kind of a type. -/
def kindOf? (table : Table) (t : TypePath) : Option TypeKind :=
  (table.entryOf? t).map TypeEntry.kind

/-- The table with one more level. -/
def withFrame (table : Table) (tree : SourceTree) (home : Namespace) (isFile : Bool) :
    Frame × Table :=
  (⟨⟨tree.id, rankIn tree.id table.frames⟩, home, isFile⟩,
    { table with frames := table.frames ++ [⟨tree.id, rankIn tree.id table.frames⟩] })

/-- The table in which a namespace exists. -/
def withNamespace (table : Table) (n : Namespace) : Table :=
  if table.hasNamespace n then table else { table with namespaces := table.namespaces ++ [n] }

/-- The table after entering namespaces one inside the other, and the scope inside. -/
def withScope (tree : SourceTree) : List Segment → Scope → Table → Scope × Table
  | [], scope, table => (scope, table)
  | s :: rest, scope, table =>
    let home := Namespace.child scope.home s.name
    let entered := (table.withNamespace home).withFrame tree home false
    withScope tree rest (entered.1 :: scope) entered.2

/-- The table with a using directive. -/
def withDirective (table : Table) (tree : SourceTree) (node : Node) (scope : Scope) :
    Option (Option String × Node) → Table
  | none => table
  | some (aliasName, target) =>
    { table with usings := table.usings ++
        [⟨⟨tree.id, rankIn tree.id (table.usings.map Using.mark)⟩,
          if node.hasChild .globalToken then none else scope.head?.map Frame.mark, tree, target,
          aliasName, node.hasChild .staticToken⟩] }

/-- The table with one more declaration of a type. -/
def withDeclaration (table : Table) (t : TypePath) (kind : TypeKind) (parameters : List String)
    (site : Site) : Table :=
  if table.hasType t then
    { table with types := table.types.map fun e =>
        if e.path = t then { e with declarations := e.declarations ++ [site] } else e }
  else { table with types := table.types ++ [⟨t, kind, parameters, [site]⟩] }

/-- The table with the base of a type, unless it has one. -/
def withBase (table : Table) (t : TypePath) (tree : SourceTree) (base : Option Node)
    (scope : Scope) : Table :=
  match base with
  | none => table
  | some name =>
    if table.bases.any fun b => b.type = t then table
    else { table with bases := table.bases ++ [⟨t, ⟨⟨tree, name⟩, scope, t.outer?⟩⟩] }

/-- The table with the type of a node. -/
def withNodeType (table : Table) (key : NodeKey) (t : TypePath) : Table :=
  { table with nodeTypes := putNodeType key t table.nodeTypes }

/-- The table after a type declaration, before its members. -/
def withType (table : Table) (tree : SourceTree) (node : Node) (type : TypeKind) (scope : Scope)
    (t : TypePath) (parameters : List String) : Table :=
  ((table.withDeclaration t (node.typeKind?.getD type) parameters ⟨tree, node⟩).withBase t tree
    node.baseName? scope).withNodeType (tree.key node) t

/-- The table with more fields. -/
def withFields (table : Table) (fields : List FieldEntry) : Table :=
  { table with fields := table.fields ++ fields }

/-! ### What an update leaves alone -/

section

variable (table : Table) (tree : SourceTree) (node : Node) (scope : Scope)

theorem withNamespace_eq (n : Namespace) :
    table.withNamespace n = { table with namespaces := (table.withNamespace n).namespaces } := by
  rw [withNamespace]
  split <;> rfl

@[simp] theorem withNamespace_types (n : Namespace) :
    (table.withNamespace n).types = table.types := by
  rw [withNamespace_eq]

@[simp] theorem withNamespace_nodeTypes (n : Namespace) :
    (table.withNamespace n).nodeTypes = table.nodeTypes := by
  rw [withNamespace_eq]

@[simp] theorem withNamespace_fields (n : Namespace) :
    (table.withNamespace n).fields = table.fields := by
  rw [withNamespace_eq]

@[simp] theorem withNamespace_frames (n : Namespace) :
    (table.withNamespace n).frames = table.frames := by
  rw [withNamespace_eq]

@[simp] theorem withNamespace_usings (n : Namespace) :
    (table.withNamespace n).usings = table.usings := by
  rw [withNamespace_eq]

@[simp] theorem withNamespace_bases (n : Namespace) :
    (table.withNamespace n).bases = table.bases := by
  rw [withNamespace_eq]

theorem withScope_eq (segments : List Segment) :
    (withScope tree segments scope table).2 = { table with
      namespaces := (withScope tree segments scope table).2.namespaces
      frames := (withScope tree segments scope table).2.frames } := by
  induction segments generalizing scope table with
  | nil => rfl
  | cons s rest ih =>
    rw [withScope, ih, withFrame, withNamespace_eq]

@[simp] theorem withScope_types (segments : List Segment) :
    (withScope tree segments scope table).2.types = table.types := by
  rw [withScope_eq]

@[simp] theorem withScope_nodeTypes (segments : List Segment) :
    (withScope tree segments scope table).2.nodeTypes = table.nodeTypes := by
  rw [withScope_eq]

@[simp] theorem withScope_fields (segments : List Segment) :
    (withScope tree segments scope table).2.fields = table.fields := by
  rw [withScope_eq]

@[simp] theorem withScope_usings (segments : List Segment) :
    (withScope tree segments scope table).2.usings = table.usings := by
  rw [withScope_eq]

@[simp] theorem withScope_bases (segments : List Segment) :
    (withScope tree segments scope table).2.bases = table.bases := by
  rw [withScope_eq]

theorem withDirective_eq (d : Option (Option String × Node)) :
    table.withDirective tree node scope d =
      { table with usings := (table.withDirective tree node scope d).usings } := by
  cases d <;> rfl

@[simp] theorem withDirective_namespaces (d : Option (Option String × Node)) :
    (table.withDirective tree node scope d).namespaces = table.namespaces := by
  rw [withDirective_eq]

@[simp] theorem withDirective_types (d : Option (Option String × Node)) :
    (table.withDirective tree node scope d).types = table.types := by
  rw [withDirective_eq]

@[simp] theorem withDirective_nodeTypes (d : Option (Option String × Node)) :
    (table.withDirective tree node scope d).nodeTypes = table.nodeTypes := by
  rw [withDirective_eq]

@[simp] theorem withDirective_fields (d : Option (Option String × Node)) :
    (table.withDirective tree node scope d).fields = table.fields := by
  rw [withDirective_eq]

@[simp] theorem withDirective_frames (d : Option (Option String × Node)) :
    (table.withDirective tree node scope d).frames = table.frames := by
  rw [withDirective_eq]

@[simp] theorem withDirective_bases (d : Option (Option String × Node)) :
    (table.withDirective tree node scope d).bases = table.bases := by
  rw [withDirective_eq]

theorem withDeclaration_eq (t : TypePath) (kind : TypeKind) (parameters : List String)
    (site : Site) : table.withDeclaration t kind parameters site =
      { table with types := (table.withDeclaration t kind parameters site).types } := by
  rw [withDeclaration]
  split <;> rfl

theorem withType_eq (type : TypeKind) (t : TypePath) (parameters : List String) :
    table.withType tree node type scope t parameters = { table with
      types := (table.withDeclaration t (node.typeKind?.getD type) parameters ⟨tree, node⟩).types
      nodeTypes := putNodeType (tree.key node) t table.nodeTypes
      bases := (table.withBase t tree node.baseName? scope).bases } := by
  rw [withType, withDeclaration_eq, withNodeType]
  generalize (table.withDeclaration t _ parameters ⟨tree, node⟩).types = types
  cases node.baseName? with
  | none => rfl
  | some name =>
    simp only [withBase]
    split <;> rfl

@[simp] theorem withType_namespaces (type : TypeKind) (t : TypePath) (parameters : List String) :
    (table.withType tree node type scope t parameters).namespaces = table.namespaces := by
  rw [withType_eq]

@[simp] theorem withType_fields (type : TypeKind) (t : TypePath) (parameters : List String) :
    (table.withType tree node type scope t parameters).fields = table.fields := by
  rw [withType_eq]

@[simp] theorem withType_frames (type : TypeKind) (t : TypePath) (parameters : List String) :
    (table.withType tree node type scope t parameters).frames = table.frames := by
  rw [withType_eq]

@[simp] theorem withType_usings (type : TypeKind) (t : TypePath) (parameters : List String) :
    (table.withType tree node type scope t parameters).usings = table.usings := by
  rw [withType_eq]

end

end Table

/-- The members of a type that are declared with it: none for an enumeration. -/
def openMembers (table : Table) (t : TypePath) (node : Node) : List Node :=
  if table.kindOf? t = some .enumType then [] else members node

/-- Declaring sibling nodes, inside a scope and possibly a type, takes one table to another. -/
inductive Declares (tree : SourceTree) :
    Scope → Option TypePath → List Node → Table → Table → Prop
  | nil {scope within table} : Declares tree scope within [] table table
  | directive {scope within node rest table last d}
      (hk : node.kind = .usingDirective) (hd : directiveOf tree node = .ok d)
      (hr : Declares tree scope within rest (table.withDirective tree node scope d) last) :
      Declares tree scope within (node :: rest) table last
  | block {scope within node rest table mid last segments}
      (hk : node.kind = .namespaceDeclaration) (hn : segmentsOf tree node = .ok segments)
      (hb : Declares tree (Table.withScope tree segments scope table).1 none (members node)
        (Table.withScope tree segments scope table).2 mid)
      (hr : Declares tree scope within rest mid last) :
      Declares tree scope within (node :: rest) table last
  | file {scope within node rest table mid last segments}
      (hk : node.kind = .fileScopedNamespace) (hn : segmentsOf tree node = .ok segments)
      (hb : Declares tree (Table.withScope tree segments scope table).1 none node.children
        (Table.withScope tree segments scope table).2 mid)
      (hr : Declares tree (Table.withScope tree segments scope table).1 within rest mid last) :
      Declares tree scope within (node :: rest) table last
  | storage {scope owner node rest table last fields}
      (hk : isStorage node.kind = true)
      (hf : storedFields tree scope owner (table.kindOf? owner) node = .ok fields)
      (hr : Declares tree scope (some owner) rest (table.withFields fields) last) :
      Declares tree scope (some owner) (node :: rest) table last
  | type {scope within node rest table mid last kind t parameters}
      (hk : node.kind = .typeDeclaration kind)
      (ht : typeOf tree node scope within = .ok (t, parameters))
      (hb : Declares tree scope (some t)
        (openMembers (table.withType tree node kind scope t parameters) t node)
        (table.withType tree node kind scope t parameters) mid)
      (hr : Declares tree scope within rest mid last) :
      Declares tree scope within (node :: rest) table last
  | wrapper {scope within node rest table mid last w}
      (hk : node.kind = .wrapper w)
      (hb : Declares tree scope within node.children table mid)
      (hr : Declares tree scope within rest mid last) :
      Declares tree scope within (node :: rest) table last
  | skip {scope within node rest table last}
      (hk : isOpening node.kind = false) (hs : within = none ∨ isStorage node.kind = false)
      (hr : Declares tree scope within rest table last) :
      Declares tree scope within (node :: rest) table last

/-! ## Steps that return -/

theorem ofExcept_ok {α : Type} {v : Except Fault α} {a : α} {table last : Table} :
    Declare.ofExcept v table = .ok a last ↔ v = .ok a ∧ table = last := by
  cases v with
  | ok b => exact run_pure_ok.trans (by simp)
  | error e => exact ⟨nofun, nofun⟩

theorem modify_ok {f : Table → Table} {u : PUnit} {table last : Table} :
    (modify f : Declare PUnit) table = .ok u last ↔ f table = last := by
  change EStateM.Result.ok PUnit.unit (f table) = .ok u last ↔ _
  simp

theorem enterSegments_ok {tree : SourceTree} {segments : List Segment} {scope inner : Scope}
    {table last : Table} :
    enterSegments tree segments scope table = .ok inner last ↔
      Table.withScope tree segments scope table = (inner, last) := by
  induction segments generalizing scope table with
  | nil =>
    simp only [enterSegments, Table.withScope, Prod.mk.injEq]
    exact run_pure_ok
  | cons s rest ih =>
    simp only [Table.withScope]
    rw [← ih]
    rfl

theorem enterNamespace_ok {tree : SourceTree} {node : Node} {scope inner : Scope}
    {table last : Table} :
    enterNamespace tree node scope table = .ok inner last ↔
      ∃ segments, segmentsOf tree node = .ok segments ∧
        Table.withScope tree segments scope table = (inner, last) := by
  cases hname : namespaceName? node with
  | none =>
    simp only [enterNamespace, segmentsOf, hname, run_pure_ok]
    simp [Table.withScope]
  | some nameNode =>
    simp only [enterNamespace, segmentsOf, hname, run_bind_ok, ofExcept_ok, enterSegments_ok,
      except_bind_ok]
    constructor
    · rintro ⟨name, _, ⟨hn, rfl⟩, hs⟩
      exact ⟨name.segments, ⟨name, hn, rfl⟩, hs⟩
    · rintro ⟨_, ⟨name, hn, he⟩, hs⟩
      cases he
      exact ⟨name, table, ⟨hn, rfl⟩, hs⟩

theorem declareUsing_ok {tree : SourceTree} {node : Node} {scope : Scope} {table last : Table} :
    declareUsing tree node scope table = .ok () last ↔
      ∃ d, directiveOf tree node = .ok d ∧ table.withDirective tree node scope d = last := by
  simp only [declareUsing, directiveOf]
  split
  · rw [run_pure_ok]
    simp [Table.withDirective]
  · rw [run_bind_ok]
    simp only [ofExcept_ok, except_bind_ok]
    constructor
    · rintro ⟨⟨aliasName, names⟩, _, ⟨ha, rfl⟩, hm⟩
      refine ⟨_, ⟨_, ha, rfl⟩, ?_⟩
      cases hl : names.getLast? with
      | none =>
        simp only [hl, run_pure_ok] at hm
        exact hm.2
      | some target =>
        simp only [hl, modify_ok] at hm
        exact hm
    · rintro ⟨_, ⟨⟨aliasName, names⟩, ha, he⟩, hm⟩
      cases he
      refine ⟨(aliasName, names), table, ⟨ha, rfl⟩, ?_⟩
      cases hl : names.getLast? with
      | none =>
        rw [hl] at hm
        exact run_pure_ok.mpr ⟨rfl, hm⟩
      | some target =>
        rw [hl] at hm
        simp only [modify_ok]
        exact hm

theorem declareType_ok {tree : SourceTree} {node : Node} {type : TypeKind} {scope : Scope}
    {within : Option TypePath} {t : TypePath} {table last : Table} :
    declareType tree node (node.typeKind?.getD type) scope within table = .ok t last ↔
      ∃ parameters, typeOf tree node scope within = .ok (t, parameters) ∧
        table.withType tree node type scope t parameters = last := by
  have hbase : ∀ (u : TypePath) (table last : Table),
      addBase u tree node.baseName? scope table = .ok () last ↔
        table.withBase u tree node.baseName? scope = last := by
    intro u table last
    simp only [addBase, Table.withBase]
    cases node.baseName? with
    | none => simp [run_pure_ok]
    | some name => exact modify_ok
  simp only [declareType, typeOf, run_bind_ok, ofExcept_ok, except_bind_ok]
  constructor
  · rintro ⟨name, _, ⟨hn, rfl⟩, parameters, _, ⟨hp, rfl⟩, _, _, hd, _, mid, hb, _, _, hm, hr⟩
    obtain rfl := modify_ok.mp hd
    obtain rfl := (hbase _ _ _).mp hb
    obtain rfl := modify_ok.mp hm
    obtain ⟨rfl, rfl⟩ := run_pure_ok.mp hr
    exact ⟨parameters, ⟨name, hn, parameters, hp, rfl⟩, rfl⟩
  · rintro ⟨parameters, ⟨name, hn, _, hp, he⟩, rfl⟩
    cases he
    exact ⟨name, table, ⟨hn, rfl⟩, parameters, table, ⟨hp, rfl⟩, (), _, rfl, (), _,
      (hbase _ _ _).mpr rfl, (), _, rfl, rfl⟩

theorem withFields_nil (table : Table) : table.withFields [] = table := by
  simp [Table.withFields]

/-- Adding one field per node adds them all, provided that every name can be read. -/
theorem forM_addField_ok {name : Node → Except Fault String} {entry : Node → String → FieldEntry}
    {nodes : List Node} {table last : Table} :
    (nodes.forM fun node => do
      let n ← Declare.ofExcept (name node)
      addField (entry node n)) table = .ok () last ↔
      ∃ fields, (nodes.mapM fun node => do
        let n ← name node
        return entry node n) = .ok fields ∧ table.withFields fields = last := by
  induction nodes generalizing table with
  | nil =>
    rw [List.forM, run_pure_ok, List.mapM_nil]
    constructor
    · rintro ⟨_, rfl⟩
      exact ⟨[], rfl, withFields_nil table⟩
    · rintro ⟨_, he, rfl⟩
      cases he
      exact ⟨rfl, (withFields_nil table).symm⟩
  | cons node rest ih =>
    rw [List.forM, List.mapM_cons]
    simp only [run_bind_ok, ofExcept_ok, ih, except_bind_ok]
    constructor
    · rintro ⟨_, _, ⟨n, _, ⟨hn, rfl⟩, ha⟩, fields, hf, rfl⟩
      obtain rfl := modify_ok.mp ha
      exact ⟨entry node n :: fields, ⟨_, ⟨n, hn, rfl⟩, fields, hf, rfl⟩, by
        simp [Table.withFields]⟩
    · rintro ⟨_, ⟨_, ⟨n, hn, he⟩, fields, hf, hc⟩, rfl⟩
      cases he
      cases hc
      exact ⟨(), _, ⟨n, table, ⟨hn, rfl⟩, rfl⟩, fields, hf, by simp [Table.withFields]⟩

theorem declareFields_ok {tree : SourceTree} {node : Node} {scope : Scope} {owner : TypePath}
    {table last : Table} (hk : node.kind = .fieldDeclaration) :
    declareFields tree node scope owner table = .ok () last ↔
      ∃ fields, storedFields tree scope owner (table.kindOf? owner) node = .ok fields ∧
        table.withFields fields = last := by
  simp only [declareFields, storedFields, hk, run_bind_ok, ofExcept_ok, except_bind_ok,
    forM_addField_ok]
  constructor
  · rintro ⟨modifiers, _, ⟨hm, rfl⟩, fields, hf, hl⟩
    exact ⟨fields, ⟨modifiers, hm, hf⟩, hl⟩
  · rintro ⟨fields, ⟨modifiers, hm, hf⟩, hl⟩
    exact ⟨modifiers, table, ⟨hm, rfl⟩, fields, hf, hl⟩

theorem kindOf_ok {t : TypePath} {kind : Option TypeKind} {table last : Table} :
    kindOf t table = .ok kind last ↔ table.kindOf? t = kind ∧ table = last :=
  run_pure_ok

theorem declareEventFields_ok {tree : SourceTree} {node : Node} {scope : Scope} {owner : TypePath}
    {table last : Table} (hk : node.kind = .eventFieldDeclaration) :
    declareEventFields tree node owner table = .ok () last ↔
      ∃ fields, storedFields tree scope owner (table.kindOf? owner) node = .ok fields ∧
        table.withFields fields = last := by
  simp only [declareEventFields, storedFields, hk, run_bind_ok, ofExcept_ok, except_bind_ok,
    kindOf_ok]
  constructor
  · rintro ⟨modifiers, _, ⟨hm, rfl⟩, _, _, ⟨rfl, rfl⟩, hf⟩
    by_cases hs : hasStorage (table.kindOf? owner) modifiers = true
    · rw [if_pos hs, forM_addField_ok] at hf
      obtain ⟨fields, hf, hl⟩ := hf
      exact ⟨fields, ⟨modifiers, hm, by rw [if_pos hs]; exact hf⟩, hl⟩
    · rw [if_neg hs, run_pure_ok] at hf
      exact ⟨[], ⟨modifiers, hm, by rw [if_neg hs]; rfl⟩, (withFields_nil table).trans hf.2⟩
  · rintro ⟨fields, ⟨modifiers, hm, hf⟩, rfl⟩
    refine ⟨modifiers, table, ⟨hm, rfl⟩, _, table, ⟨rfl, rfl⟩, ?_⟩
    by_cases hs : hasStorage (table.kindOf? owner) modifiers = true
    · rw [if_pos hs] at hf ⊢
      exact forM_addField_ok.mpr ⟨fields, hf, rfl⟩
    · rw [if_neg hs] at hf ⊢
      cases hf
      exact run_pure_ok.mpr ⟨rfl, (withFields_nil table).symm⟩

theorem declareBackingField_ok {tree : SourceTree} {node : Node} {scope : Scope} {owner : TypePath}
    {table last : Table} (hk : node.kind = .propertyDeclaration) :
    declareBackingField tree node owner table = .ok () last ↔
      ∃ fields, storedFields tree scope owner (table.kindOf? owner) node = .ok fields ∧
        table.withFields fields = last := by
  simp only [declareBackingField, storedFields, backingField, hk, run_bind_ok, ofExcept_ok,
    except_bind_ok, kindOf_ok]
  constructor
  · rintro ⟨modifiers, _, ⟨hm, rfl⟩, _, _, ⟨rfl, rfl⟩, hf⟩
    by_cases hs : (node.isAutoProperty && hasStorage (table.kindOf? owner) modifiers) = true
    · rw [if_pos hs, run_bind_ok] at hf
      obtain ⟨name, _, hread, ha⟩ := hf
      obtain ⟨hn, rfl⟩ := ofExcept_ok.mp hread
      refine ⟨_, ⟨modifiers, hm, ?_⟩, modify_ok.mp ha⟩
      rw [if_pos hs, except_bind_ok]
      exact ⟨_, except_bind_ok.mpr ⟨name, hn, rfl⟩, rfl⟩
    · rw [if_neg hs, run_pure_ok] at hf
      exact ⟨[], ⟨modifiers, hm, by rw [if_neg hs]; rfl⟩, (withFields_nil table).trans hf.2⟩
  · rintro ⟨fields, ⟨modifiers, hm, hf⟩, rfl⟩
    refine ⟨modifiers, table, ⟨hm, rfl⟩, _, table, ⟨rfl, rfl⟩, ?_⟩
    by_cases hs : (node.isAutoProperty && hasStorage (table.kindOf? owner) modifiers) = true
    · rw [if_pos hs] at hf ⊢
      obtain ⟨field, hb, he⟩ := except_bind_ok.mp hf
      obtain ⟨name, hn, hfield⟩ := except_bind_ok.mp hb
      cases hfield
      cases he
      exact run_bind_ok.mpr ⟨name, table, ofExcept_ok.mpr ⟨hn, rfl⟩, modify_ok.mpr rfl⟩
    · rw [if_neg hs] at hf ⊢
      cases hf
      exact run_pure_ok.mpr ⟨rfl, (withFields_nil table).symm⟩

/-! ## Runs and the relation -/

/-- A member that may add fields does so in a type, and is passed over elsewhere. -/
theorem declares_storage {tree : SourceTree} {scope : Scope} {within : Option TypePath}
    {node : Node} {rest : List Node} {table mid last : Table} {u : PUnit}
    {declare : TypePath → Declare PUnit} (hk : isStorage node.kind = true)
    (ho : isOpening node.kind = false)
    (hd : ∀ owner, declare owner table = .ok () mid →
      ∃ fields, storedFields tree scope owner (table.kindOf? owner) node = .ok fields ∧
        table.withFields fields = mid)
    (h : within.forM declare table = .ok u mid)
    (hr : Declares tree scope within rest mid last) :
    Declares tree scope within (node :: rest) table last := by
  cases within with
  | none =>
    obtain ⟨_, rfl⟩ := run_pure_ok.mp h
    exact .skip ho (.inl rfl) hr
  | some owner =>
    obtain ⟨fields, hs, rfl⟩ := hd owner h
    exact .storage hk hs hr

mutual

theorem declares_of_declareMember (tree : SourceTree) : ∀ (node : Node) (scope inner : Scope)
    (within : Option TypePath) (rest : List Node) (table mid last : Table),
    declareMember tree scope within node table = .ok inner mid →
    Declares tree inner within rest mid last → Declares tree scope within (node :: rest) table last
  | .mk kind named missing start stop label children => by
    intro scope inner within rest table mid last h hr
    cases kind with
    | usingDirective =>
      simp only [declareMember, run_bind_ok, run_pure_ok] at h
      obtain ⟨_, _, hu, rfl, rfl⟩ := h
      obtain ⟨d, hd, rfl⟩ := declareUsing_ok.mp hu
      exact .directive rfl hd hr
    | namespaceDeclaration =>
      simp only [declareMember, run_bind_ok, run_pure_ok] at h
      obtain ⟨inside, entered, he, _, _, hb, rfl, rfl⟩ := h
      obtain ⟨segments, hs, hw⟩ := enterNamespace_ok.mp he
      refine .block rfl hs ?_ hr
      rw [hw]
      exact declares_of_declareBody tree children _ _ _ _ hb
    | fileScopedNamespace =>
      simp only [declareMember, run_bind_ok, run_pure_ok] at h
      obtain ⟨inside, entered, he, _, after, hb, rfl, rfl⟩ := h
      obtain ⟨segments, hs, hw⟩ := enterNamespace_ok.mp he
      have hb' : Declares tree (Table.withScope tree segments scope table).1 none children
          (Table.withScope tree segments scope table).2 after := by
        rw [hw]
        exact declares_of_declareMembers tree children _ _ _ _ hb
      have hr' : Declares tree (Table.withScope tree segments scope table).1 within rest after
          last := by
        rw [hw]
        exact hr
      exact .file rfl hs hb' hr'
    | fieldDeclaration =>
      simp only [declareMember, run_bind_ok, run_pure_ok] at h
      obtain ⟨_, _, hf, rfl, rfl⟩ := h
      exact declares_storage rfl rfl (fun _ => (declareFields_ok rfl).mp) hf hr
    | propertyDeclaration =>
      simp only [declareMember, run_bind_ok, run_pure_ok] at h
      obtain ⟨_, _, hf, rfl, rfl⟩ := h
      exact declares_storage rfl rfl (fun _ => (declareBackingField_ok rfl).mp) hf hr
    | eventFieldDeclaration =>
      simp only [declareMember, run_bind_ok, run_pure_ok] at h
      obtain ⟨_, _, hf, rfl, rfl⟩ := h
      exact declares_storage rfl rfl (fun _ => (declareEventFields_ok rfl).mp) hf hr
    | typeDeclaration type =>
      simp only [declareMember, run_bind_ok, kindOf_ok] at h
      obtain ⟨t, entered, ht, _, _, ⟨rfl, rfl⟩, h⟩ := h
      obtain ⟨parameters, hp, rfl⟩ := declareType_ok.mp ht
      split at h
      · rename_i hopen
        obtain ⟨_, after, hb, h⟩ := run_bind_ok.mp h
        obtain ⟨rfl, rfl⟩ := run_pure_ok.mp h
        refine .type rfl hp ?_ hr
        rw [openMembers, if_neg hopen]
        exact declares_of_declareBody tree children _ _ _ _ hb
      · rename_i hclosed
        obtain ⟨rfl, rfl⟩ := run_pure_ok.mp h
        refine .type rfl hp ?_ hr
        rw [openMembers, if_pos (not_not.mp hclosed)]
        exact .nil
    | wrapper w =>
      simp only [declareMember, run_bind_ok, run_pure_ok] at h
      obtain ⟨_, _, hb, rfl, rfl⟩ := h
      exact .wrapper rfl (declares_of_declareMembers tree children _ _ _ _ hb) hr
    | _ =>
      simp only [declareMember, run_pure_ok] at h
      obtain ⟨rfl, rfl⟩ := h
      exact .skip rfl (.inr rfl) hr

/-- A run over sibling nodes that returns follows the rules. -/
theorem declares_of_declareMembers (tree : SourceTree) : ∀ (nodes : List Node) (scope : Scope)
    (within : Option TypePath) (table last : Table),
    declareMembers tree scope within nodes table = .ok () last →
    Declares tree scope within nodes table last
  | [] => by
    intro scope within table last h
    simp only [declareMembers, run_pure_ok] at h
    obtain ⟨_, rfl⟩ := h
    exact .nil
  | node :: rest => by
    intro scope within table last h
    simp only [declareMembers, run_bind_ok] at h
    obtain ⟨inner, mid, hm, hr⟩ := h
    exact declares_of_declareMember tree node _ _ _ _ _ _ _ hm
      (declares_of_declareMembers tree rest _ _ _ _ hr)

theorem declares_of_declareBody (tree : SourceTree) : ∀ (children : List Node) (scope : Scope)
    (within : Option TypePath) (table last : Table),
    declareBody tree scope within children table = .ok () last →
    Declares tree scope within
      (((children.find? fun child => child.kind.isBody).map Node.children).getD []) table last
  | [] => by
    intro scope within table last h
    simp only [declareBody, run_pure_ok] at h
    obtain ⟨_, rfl⟩ := h
    exact .nil
  | .mk kind named missing start stop label children :: rest => by
    intro scope within table last h
    simp only [declareBody] at h
    cases hk : kind.isBody with
    | true =>
      rw [List.find?_cons_of_pos (by exact hk)]
      rw [if_pos hk] at h
      exact declares_of_declareMembers tree children _ _ _ _ h
    | false =>
      rw [List.find?_cons_of_neg (by simpa [Node.kind] using hk)]
      rw [if_neg (by simp [hk])] at h
      exact declares_of_declareBody tree rest _ _ _ _ h

end

theorem declareBody_eq (tree : SourceTree) (scope : Scope) (within : Option TypePath)
    (children : List Node) :
    declareBody tree scope within children = declareMembers tree scope within
      (((children.find? fun child => child.kind.isBody).map Node.children).getD []) := by
  induction children with
  | nil => rfl
  | cons child rest ih =>
    obtain ⟨kind, named, missing, start, stop, label, children⟩ := child
    rw [declareBody]
    cases hk : kind.isBody with
    | true =>
      rw [List.find?_cons_of_pos (by exact hk)]
      rfl
    | false =>
      rw [List.find?_cons_of_neg (by simpa [Node.kind] using hk), ← ih]
      rfl

/-- The rules describe runs that return. -/
theorem declareMembers_of_declares {tree : SourceTree} {scope : Scope} {within : Option TypePath}
    {nodes : List Node} {table last : Table} (h : Declares tree scope within nodes table last) :
    declareMembers tree scope within nodes table = .ok () last := by
  induction h with
  | nil => simp only [declareMembers, run_pure_ok, and_self]
  | @directive scope within node rest table last d hk hd hr ih =>
    obtain ⟨kind, named, missing, start, stop, label, children⟩ := node
    obtain rfl : kind = .usingDirective := hk
    rw [declareMembers, run_bind_ok]
    refine ⟨scope, _, ?_, ih⟩
    simp only [declareMember, run_bind_ok, run_pure_ok]
    exact ⟨(), _, declareUsing_ok.mpr ⟨d, hd, rfl⟩, trivial, rfl⟩
  | @block scope within node rest table mid last segments hk hn hb hr ihb ihr =>
    obtain ⟨kind, named, missing, start, stop, label, children⟩ := node
    obtain rfl : kind = .namespaceDeclaration := hk
    rw [declareMembers, run_bind_ok]
    refine ⟨scope, mid, ?_, ihr⟩
    simp only [declareMember, run_bind_ok, run_pure_ok, declareBody_eq]
    exact ⟨_, _, enterNamespace_ok.mpr ⟨segments, hn, rfl⟩, (), mid, ihb, trivial, rfl⟩
  | @file scope within node rest table mid last segments hk hn hb hr ihb ihr =>
    obtain ⟨kind, named, missing, start, stop, label, children⟩ := node
    obtain rfl : kind = .fileScopedNamespace := hk
    rw [declareMembers, run_bind_ok]
    refine ⟨_, mid, ?_, ihr⟩
    simp only [declareMember, run_bind_ok, run_pure_ok]
    exact ⟨_, _, enterNamespace_ok.mpr ⟨segments, hn, rfl⟩, (), mid, ihb, rfl, rfl⟩
  | @storage scope owner node rest table last fields hk hf hr ih =>
    obtain ⟨kind, named, missing, start, stop, label, children⟩ := node
    rw [declareMembers, run_bind_ok]
    refine ⟨scope, _, ?_, ih⟩
    cases kind with
    | fieldDeclaration =>
      simp only [declareMember, run_bind_ok, run_pure_ok]
      exact ⟨(), _, (declareFields_ok rfl).mpr ⟨fields, hf, rfl⟩, trivial, rfl⟩
    | propertyDeclaration =>
      simp only [declareMember, run_bind_ok, run_pure_ok]
      exact ⟨(), _, (declareBackingField_ok rfl).mpr ⟨fields, hf, rfl⟩, trivial, rfl⟩
    | eventFieldDeclaration =>
      simp only [declareMember, run_bind_ok, run_pure_ok]
      exact ⟨(), _, (declareEventFields_ok rfl).mpr ⟨fields, hf, rfl⟩, trivial, rfl⟩
    | _ => cases hk
  | @type scope within node rest table mid last kind t parameters hk ht hb hr ihb ihr =>
    obtain ⟨_, named, missing, start, stop, label, children⟩ := node
    obtain rfl := hk
    rw [declareMembers, run_bind_ok]
    refine ⟨scope, mid, ?_, ihr⟩
    simp only [declareMember, run_bind_ok, kindOf_ok, declareBody_eq]
    refine ⟨t, _, declareType_ok.mpr ⟨parameters, ht, rfl⟩, _, _, ⟨rfl, rfl⟩, ?_⟩
    rw [openMembers] at ihb
    split
    · rename_i hopen
      rw [if_neg hopen] at ihb
      exact run_bind_ok.mpr ⟨(), mid, ihb, rfl⟩
    · rename_i hclosed
      rw [if_pos (not_not.mp hclosed)] at ihb
      simp only [declareMembers, run_pure_ok] at ihb
      exact run_pure_ok.mpr ⟨rfl, ihb.2⟩
  | @wrapper scope within node rest table mid last w hk hb hr ihb ihr =>
    obtain ⟨kind, named, missing, start, stop, label, children⟩ := node
    obtain rfl : kind = .wrapper w := hk
    rw [declareMembers, run_bind_ok]
    refine ⟨scope, mid, ?_, ihr⟩
    simp only [declareMember, run_bind_ok, run_pure_ok]
    exact ⟨(), mid, ihb, trivial, rfl⟩
  | @skip scope within node rest table last hk hs hr ih =>
    obtain ⟨kind, named, missing, start, stop, label, children⟩ := node
    rw [declareMembers, run_bind_ok]
    refine ⟨scope, table, ?_, ih⟩
    rcases hs with rfl | hs
    · cases kind <;> first | rfl | simp [isOpening, Node.kind] at hk
    · cases kind <;> first | rfl | simp [isOpening, isStorage, Node.kind] at hk hs

theorem declareMembers_iff {tree : SourceTree} {scope : Scope} {within : Option TypePath}
    {nodes : List Node} {table last : Table} :
    declareMembers tree scope within nodes table = .ok () last ↔
      Declares tree scope within nodes table last :=
  ⟨declares_of_declareMembers tree nodes _ _ _ _, declareMembers_of_declares⟩

/-- Declaring a whole tree takes one table to another. -/
def DeclaresTree (tree : SourceTree) (table last : Table) : Prop :=
  Declares tree [(table.withFrame tree .global true).1] none tree.root.children
    (table.withFrame tree .global true).2 last

theorem declareTree_iff {tree : SourceTree} {table last : Table} :
    declareTree tree table = .ok () last ↔ DeclaresTree tree table last := by
  rw [DeclaresTree, ← declareMembers_iff]
  rfl

theorem DeclaresTree.unique {tree : SourceTree} {table last other : Table}
    (h : DeclaresTree tree table last) (h' : DeclaresTree tree table other) : last = other := by
  have hrun := declareTree_iff.mpr h
  rw [declareTree_iff.mpr h'] at hrun
  cases hrun
  rfl

/-- Declaring trees one after the other. -/
inductive DeclaresTrees : List SourceTree → Table → Table → Prop
  | nil {table} : DeclaresTrees [] table table
  | cons {tree rest table mid last} (ht : DeclaresTree tree table mid)
      (hr : DeclaresTrees rest mid last) : DeclaresTrees (tree :: rest) table last

theorem declareTrees_iff {trees : List SourceTree} {table last : Table} :
    declareTrees trees table = .ok () last ↔ DeclaresTrees trees table last := by
  induction trees generalizing table with
  | nil =>
    constructor
    · intro h
      obtain ⟨_, rfl⟩ := run_pure_ok.mp h
      exact .nil
    · rintro ⟨⟩
      rfl
  | cons tree rest ih =>
    rw [declareTrees, List.forM, run_bind_ok]
    constructor
    · rintro ⟨_, mid, ht, hr⟩
      exact .cons (declareTree_iff.mp ht) (ih.mp hr)
    · rintro ⟨⟩
      rename_i mid ht hr
      exact ⟨(), mid, declareTree_iff.mpr ht, ih.mpr hr⟩

theorem DeclaresTrees.unique {trees : List SourceTree} {table last other : Table}
    (h : DeclaresTrees trees table last) (h' : DeclaresTrees trees table other) : last = other := by
  have hrun := declareTrees_iff.mpr h
  rw [declareTrees_iff.mpr h'] at hrun
  cases hrun
  rfl

theorem DeclaresTrees.split {trees more : List SourceTree} {table last : Table}
    (h : DeclaresTrees (trees ++ more) table last) :
    ∃ mid, DeclaresTrees trees table mid ∧ DeclaresTrees more mid last := by
  induction trees generalizing table with
  | nil => exact ⟨table, .nil, h⟩
  | cons tree rest ih =>
    cases h with
    | cons ht hr =>
      obtain ⟨mid, hl, hm⟩ := ih hr
      exact ⟨mid, .cons ht hl, hm⟩

theorem DeclaresTrees.append {trees more : List SourceTree} {table mid last : Table}
    (h : DeclaresTrees trees table mid) (hm : DeclaresTrees more mid last) :
    DeclaresTrees (trees ++ more) table last := by
  induction h with
  | nil => exact hm
  | cons ht _ ih => exact .cons ht (ih hm)

/-- The last tree is declared after the others. -/
theorem DeclaresTrees.split_last {trees : List SourceTree} {tree : SourceTree} {table last : Table}
    (h : DeclaresTrees (trees ++ [tree]) table last) :
    ∃ mid, DeclaresTrees trees table mid ∧ DeclaresTree tree mid last := by
  obtain ⟨mid, htrees, hrest⟩ := h.split
  cases hrest with
  | cons ht hnil =>
    cases hnil
    exact ⟨mid, htrees, ht⟩

end PrintGen.Symbols
