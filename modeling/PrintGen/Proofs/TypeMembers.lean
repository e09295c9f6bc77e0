import PrintGen.Proofs.NodeTypes

/-!
# The fields of a type, read off the trees

A field belongs to the type in whose body it lies, where between the body and the field there may
be nothing but wrappers. Read off all places of all trees in order, with static members and members
without storage left out, the names are those of the printable fields in the table. This takes
distinct keys of type declarations: only then does the table tell for each declaration node which
type it declares, if it was visited at all.
-/

namespace PrintGen

open Syntax Symbols

/-! ## Membership by place -/

/-- Whether the children of a node of this kind belong to whatever is around it. -/
def Syntax.Kind.isWrapper : Kind → Bool
  | .wrapper _ => true
  | _ => false

/-- The type declaration in whose body a node with these surroundings lies. Wrappers are looked
through; the first other node has to be the body, at its position in the declaration. -/
def Syntax.declarationAround? : List (Node × Nat) → Option Node
  | [] => none
  | [_] => none
  | (node, _) :: (outer, i) :: rest =>
    if node.kind.isWrapper then declarationAround? ((outer, i) :: rest)
    else if outer.kind.isTypeDeclaration &&
        outer.children.findIdx? (fun child => child.kind.isBody) = some i then some outer
    else none

/-- The names that a member of a type of the given kind adds to the printed fields. -/
def printedNames (tree : SourceTree) (kind : Option TypeKind) (node : Node) :
    Except Fault (List String) :=
  match node.kind with
  | .fieldDeclaration => do
    let modifiers ← tree.modifiers node
    if modifiers.contains "static" || modifiers.contains "const" then return []
    else (node.declarators?.getD []).mapM tree.declaredName
  | .eventFieldDeclaration => do
    let modifiers ← tree.modifiers node
    if kind = some .interfaceType || modifiers.contains "static" ||
        modifiers.contains "abstract" || modifiers.contains "extern" then return []
    else (node.declarators?.getD []).mapM tree.declaredName
  | _ => .ok []

/-- The type that a declaration node introduced, unless this is an enumeration. -/
def Symbols.Table.openTypeOfNode? (table : Table) (tree : SourceTree) (node : Node) :
    Option TypePath :=
  (table.typeOfNode? (tree.key node)).filter fun t => table.kindOf? t ≠ some .enumType

/-- The names that a place adds to the printed fields of a type. -/
def printedAt (table : Table) (t : TypePath) (tree : SourceTree) (p : Place) :
    Except Fault (List String) :=
  if (declarationAround? p.around).bind (table.openTypeOfNode? tree) = some t then
    printedNames tree (table.kindOf? t) p.node
  else .ok []

/-- Reads a list of names off each item and puts them one after the other. -/
def collect {α : Type} (read : α → Except Fault (List String)) (items : List α) :
    Except Fault (List String) := do
  let names ← items.mapM read
  return names.flatten

section

variable {α : Type} {read : α → Except Fault (List String)}

theorem collect_append {items more : List α} {names others : List String}
    (h : collect read items = .ok names) (hm : collect read more = .ok others) :
    collect read (items ++ more) = .ok (names ++ others) := by
  obtain ⟨lists, hl, he⟩ := except_bind_ok.mp h
  obtain ⟨lists', hl', he'⟩ := except_bind_ok.mp hm
  cases he
  cases he'
  rw [collect, List.mapM_append, hl, except_ok_bind, hl', ← List.flatten_append]
  rfl

theorem collect_cons {item : α} {items : List α} {names others : List String}
    (h : read item = .ok names) (hm : collect read items = .ok others) :
    collect read (item :: items) = .ok (names ++ others) := by
  have hone : collect read [item] = .ok names := by
    rw [collect, List.mapM_cons, h, except_ok_bind, List.mapM_nil]
    change Except.ok [names].flatten = _
    rw [List.flatten_singleton]
  exact collect_append hone hm

theorem collect_nothing {items : List α} (h : ∀ item ∈ items, read item = .ok []) :
    collect read items = .ok [] := by
  induction items with
  | nil => rfl
  | cons item rest ih =>
    exact collect_cons (h item (by simp)) (ih fun other ho => h other (by simp [ho]))

end

/-! ## One member -/

/-- The names of the printable fields of a type in a list of fields. -/
def printed (t : TypePath) (fields : List FieldEntry) : List String :=
  ((fields.filter fun f => f.owner = t).filter fun f => f.nameable && !f.isStatic).map
    FieldEntry.name

theorem printed_append (t : TypePath) (fields more : List FieldEntry) :
    printed t (fields ++ more) = printed t fields ++ printed t more := by
  simp only [printed, List.filter_append, List.map_append]

theorem printed_other {t owner : TypePath} {fields : List FieldEntry}
    (h : ∀ f ∈ fields, f.owner = owner) (hne : owner ≠ t) : printed t fields = [] := by
  have hnone : fields.filter (fun f => decide (f.owner = t)) = [] := by
    rw [List.filter_eq_nil_iff]
    intro f hf
    rw [h f hf]
    simpa using hne
  rw [printed, hnone]
  rfl

/-- Fields that all are, or all are not, printable fields of a type. -/
theorem printed_uniform {t : TypePath} {fields : List FieldEntry} {p : Bool}
    (h : ∀ f ∈ fields, f.owner = t ∧ (f.nameable && !f.isStatic) = p) :
    printed t fields = if p then fields.map FieldEntry.name else [] := by
  have hown : fields.filter (fun f => decide (f.owner = t)) = fields := by
    rw [List.filter_eq_self]
    intro f hf
    simpa using (h f hf).1
  rw [printed, hown]
  cases p with
  | true =>
    have hall : fields.filter (fun f => f.nameable && !f.isStatic) = fields := by
      rw [List.filter_eq_self]
      intro f hf
      exact (h f hf).2
    rw [hall, if_pos rfl]
  | false =>
    have hnone : fields.filter (fun f => f.nameable && !f.isStatic) = [] := by
      rw [List.filter_eq_nil_iff]
      intro f hf
      rw [(h f hf).2]
      simp
    rw [hnone]
    rfl

/-- Fields that are made from the names of some nodes have these names. -/
theorem mapM_names {name : Node → Except Fault String} {entry : Node → String → FieldEntry}
    (hentry : ∀ node n, (entry node n).name = n) {nodes : List Node} {fields : List FieldEntry}
    (h : (nodes.mapM fun node => do
      let n ← name node
      return entry node n) = .ok fields) :
    nodes.mapM name = .ok (fields.map FieldEntry.name) := by
  have hall := mapM_ok_iff.mp h
  rw [mapM_ok_iff]
  clear h
  induction hall with
  | nil => exact .nil
  | cons hf _ ih =>
    obtain ⟨n, hn, he⟩ := except_bind_ok.mp hf
    cases he
    refine .cons ?_ ih
    rw [hentry]
    exact hn

theorem printed_fields {tree : SourceTree} {node : Node} {scope : Scope} {owner : TypePath}
    {modifiers : List String} {fields : List FieldEntry}
    (h : (node.declarators?.getD []).mapM (plainField tree node scope owner modifiers) =
      .ok fields) :
    (if modifiers.contains "static" || modifiers.contains "const" then Except.ok []
      else (node.declarators?.getD []).mapM tree.declaredName) = .ok (printed owner fields) := by
  have hflags : ∀ f ∈ fields, f.owner = owner ∧ (f.nameable && !f.isStatic) =
      !(modifiers.contains "static" || modifiers.contains "const") := by
    refine forall_of_mapM h fun declarator field hr => ?_
    obtain ⟨name, _, he⟩ := except_bind_ok.mp hr
    cases he
    rw [Bool.true_and, Bool.or_comm]
    exact ⟨rfl, rfl⟩
  rw [printed_uniform hflags]
  cases modifiers.contains "static" || modifiers.contains "const" with
  | true => rfl
  | false => exact mapM_names (fun _ _ => rfl) h

theorem printed_events {tree : SourceTree} {node : Node} {owner : TypePath}
    {modifiers : List String} {fields : List FieldEntry}
    (h : (node.declarators?.getD []).mapM (eventField tree owner modifiers) = .ok fields) :
    (if modifiers.contains "static" then Except.ok []
      else (node.declarators?.getD []).mapM tree.declaredName) = .ok (printed owner fields) := by
  have hflags : ∀ f ∈ fields, f.owner = owner ∧ (f.nameable && !f.isStatic) =
      !modifiers.contains "static" := by
    refine forall_of_mapM h fun declarator field hr => ?_
    obtain ⟨name, _, he⟩ := except_bind_ok.mp hr
    cases he
    exact ⟨rfl, rfl⟩
  rw [printed_uniform hflags]
  cases modifiers.contains "static" with
  | true => rfl
  | false => exact mapM_names (fun _ _ => rfl) h

/-- An event adds nothing if it is static or has no storage. -/
theorem event_condition (kind : Option TypeKind) (modifiers : List String) :
    (decide (kind = some .interfaceType) || modifiers.contains "static" ||
      modifiers.contains "abstract" || modifiers.contains "extern") =
      (!hasStorage kind modifiers || modifiers.contains "static") := by
  rw [hasStorage, decide_not]
  cases decide (kind = some .interfaceType) <;> cases modifiers.contains "static" <;>
    cases modifiers.contains "abstract" <;> cases modifiers.contains "extern" <;> rfl

/-- **What a member stores and what it adds to the printed fields agree.** -/
theorem printedNames_of_stored {tree : SourceTree} {scope : Scope} {owner : TypePath}
    {kind : Option TypeKind} {node : Node} {fields : List FieldEntry}
    (h : storedFields tree scope owner kind node = .ok fields) :
    printedNames tree kind node = .ok (printed owner fields) := by
  rw [storedFields] at h
  split at h
  · rename_i hk
    obtain ⟨modifiers, hm, hf⟩ := except_bind_ok.mp h
    simp only [printedNames, hk, hm, except_ok_bind]
    exact printed_fields hf
  · rename_i hk
    obtain ⟨modifiers, hm, hf⟩ := except_bind_ok.mp h
    simp only [printedNames, hk]
    split at hf
    · obtain ⟨field, hb, he⟩ := except_bind_ok.mp hf
      obtain ⟨name, _, hfield⟩ := except_bind_ok.mp hb
      cases hfield
      cases he
      rw [printed_uniform (p := false) (by simp)]
      rfl
    · cases hf
      rfl
  · rename_i hk
    obtain ⟨modifiers, hm, hf⟩ := except_bind_ok.mp h
    simp only [printedNames, hk, hm, except_ok_bind, event_condition]
    cases hs : hasStorage kind modifiers with
    | true =>
      rw [hs, if_pos rfl] at hf
      exact printed_events hf
    | false =>
      rw [hs, if_neg (by simp)] at hf
      cases hf
      rfl
  · rename_i hf hp he
    cases h
    rw [printedNames]
    split
    · rename_i hk
      exact absurd hk hf
    · rename_i hk
      exact absurd hk he
    · rfl

/-! ## Places that belong to no visited type -/

section

variable {F : Table} {tree : SourceTree} {t : TypePath}

/-- The type that the places right inside of these surroundings belong to. -/
def Symbols.Table.typeAround? (F : Table) (tree : SourceTree) (around : List (Node × Nat)) :
    Option TypePath :=
  (declarationAround? around).bind (F.openTypeOfNode? tree)

theorem typeAround?_wrapper {node : Node} (h : node.kind.isWrapper = true) (i : Nat)
    (around : List (Node × Nat)) :
    F.typeAround? tree ((node, i) :: around) = F.typeAround? tree around := by
  cases around with
  | nil => rfl
  | cons outer rest =>
    simp only [Table.typeAround?, declarationAround?, h, if_true]

/-- The innermost of these surroundings is no declaration of a type. -/
def Detached (F : Table) (tree : SourceTree) (around : List (Node × Nat)) : Prop :=
  ∀ outer i rest, around = (outer, i) :: rest → outer.kind.isTypeDeclaration = true →
    outer.children.findIdx? (fun child => child.kind.isBody) = some i →
      F.openTypeOfNode? tree outer = none

theorem typeAround?_other {node : Node} (h : node.kind.isWrapper = false) (i : Nat)
    {around : List (Node × Nat)} (hd : Detached F tree around) :
    F.typeAround? tree ((node, i) :: around) = none := by
  cases around with
  | nil => rfl
  | cons outer rest =>
    obtain ⟨outer, j⟩ := outer
    simp only [Table.typeAround?, declarationAround?, h, Bool.false_eq_true, if_false]
    split
    · rename_i hc
      simp only [Bool.and_eq_true, decide_eq_true_eq] at hc
      exact hd outer j rest rfl hc.1 hc.2
    · rfl

/-- None of these nodes declares a type that counts. -/
def Undeclared (F : Table) (tree : SourceTree) (nodes : List Node) : Prop :=
  ∀ node ∈ nodes, node.kind.isTypeDeclaration = true → F.openTypeOfNode? tree node = none

theorem detached_of_undeclared {node : Node} (h : node.kind.isTypeDeclaration = true →
    F.openTypeOfNode? tree node = none) (i : Nat) (around : List (Node × Nat)) :
    Detached F tree ((node, i) :: around) := by
  intro outer j rest he hk _
  cases he
  exact h hk

mutual

/-- Below surroundings without a type, a tree without declared types has no member of one. -/
theorem typeAround?_placesIn : ∀ (node : Node) (around : List (Node × Nat)),
    Undeclared F tree node.preorder → F.typeAround? tree around = none → Detached F tree around →
    ∀ p ∈ node.placesIn around, F.typeAround? tree p.around = none
  | .mk kind named missing start stop label children, around, hu, ha, hd => by
    intro p hp
    rw [Node.placesIn] at hp
    rcases List.mem_cons.mp hp with rfl | hrest
    · exact ha
    · refine typeAround?_placesAmong children _ around 0 (fun n hn => hu n ?_) ?_ ?_ p hrest
      · rw [Node.preorder]
        exact List.mem_cons_of_mem _ hn
      · intro i
        cases hw : (Node.mk kind named missing start stop label children).kind.isWrapper with
        | true => rw [typeAround?_wrapper hw, ha]
        | false => exact typeAround?_other hw i hd
      · intro i _ _
        exact detached_of_undeclared (hu _ (Node.mem_preorder_self _)) i around

theorem typeAround?_placesAmong : ∀ (nodes : List Node) (parent : Node)
    (around : List (Node × Nat)) (i : Nat), Undeclared F tree (Node.preorders nodes) →
    (∀ j, F.typeAround? tree ((parent, j) :: around) = none) →
    (∀ j, i ≤ j → j < i + nodes.length → Detached F tree ((parent, j) :: around)) →
    ∀ p ∈ Node.placesAmong parent around i nodes, F.typeAround? tree p.around = none
  | [], _, _, _, _, _, _ => by
    intro p hp
    rw [Node.placesAmong] at hp
    cases hp
  | node :: rest, parent, around, i, hu, ha, hd => by
    intro p hp
    rw [Node.placesAmong] at hp
    rw [Node.preorders] at hu
    rcases List.mem_append.mp hp with hfirst | hlater
    · refine typeAround?_placesIn node ((parent, i) :: around) (fun n hn => hu n (by simp [hn]))
        (ha i) (hd i (Nat.le_refl i) ?_) p hfirst
      rw [List.length_cons]
      omega
    · refine typeAround?_placesAmong rest parent around (i + 1) (fun n hn => hu n (by simp [hn])) ha
        (fun j hj hlt => hd j (by omega) ?_) p hlater
      rw [List.length_cons]
      omega

end

theorem printedAt_nothing {p : Place} (h : F.typeAround? tree p.around = none) :
    printedAt F t tree p = .ok [] := by
  rw [Table.typeAround?] at h
  rw [printedAt, h, if_neg (by simp)]

/-- A node that is neither a field nor an event adds nothing itself. -/
theorem printedAt_of_kind {p : Place} (hf : p.node.kind ≠ .fieldDeclaration)
    (he : p.node.kind ≠ .eventFieldDeclaration) : printedAt F t tree p = .ok [] := by
  have hnames : ∀ kind, printedNames tree kind p.node = .ok [] := by
    intro kind
    rw [printedNames]
    split
    · rename_i hk
      exact absurd hk hf
    · rename_i hk
      exact absurd hk he
    · rfl
  rw [printedAt, hnames]
  split <;> rfl

/-- All places at or below some places. -/
def placesBelow (ps : List Place) : List Place :=
  ps.flatMap fun p => p.node.placesIn p.around

/-- A place among the members of a type, or of none. -/
structure Situated (F : Table) (tree : SourceTree) (within : Option TypePath) (p : Place) :
    Prop where
  within : F.typeAround? tree p.around = within
  detached : Detached F tree p.around

/-- A node without visited declarations adds only what it adds itself. -/
theorem collect_leaf {p : Place} {names : List String} (hw : p.node.kind.isWrapper = false)
    (hd : Detached F tree p.around) (hu : Undeclared F tree p.node.preorder)
    (h : printedAt F t tree p = .ok names) :
    collect (printedAt F t tree) (p.node.placesIn p.around) = .ok names := by
  rw [Node.placesIn_eq, ← List.append_nil names]
  refine collect_cons h (collect_nothing fun q hq => printedAt_nothing ?_)
  refine typeAround?_placesAmong p.node.children p.node p.around 0 (fun n hn => hu n ?_)
    (fun j => typeAround?_other hw j hd) (fun j _ _ => ?_) q hq
  · rw [Node.preorder_eq]
    exact List.mem_cons_of_mem _ hn
  · exact detached_of_undeclared (hu p.node (Node.mem_preorder_self _)) j p.around

/-- A node whose children are all visited adds what they add. -/
theorem collect_children {p : Place} {names : List String} (inner : Option TypePath)
    (hself : printedAt F t tree p = .ok []) (hk : p.node.kind.isTypeDeclaration = false)
    (hin : ∀ i, F.typeAround? tree ((p.node, i) :: p.around) = inner)
    (h : ∀ ps : List Place, ps.map Place.node = p.node.children →
      (∀ q ∈ ps, Situated F tree inner q) → collect (printedAt F t tree) (placesBelow ps) = .ok names) :
    collect (printedAt F t tree) (p.node.placesIn p.around) = .ok names := by
  rw [Node.placesIn_eq, ← List.nil_append names]
  refine collect_cons hself ?_
  rw [← p.childrenFrom_placesIn]
  refine h _ (p.childrenFrom_node 0 _) fun q hq => ?_
  obtain ⟨child, _, rfl⟩ := List.mem_map.mp hq
  refine ⟨hin _, detached_of_undeclared (fun ht => ?_) _ _⟩
  rw [hk] at ht
  cases ht

theorem isBody_kind {kind : Kind} (h : kind.isBody = true) :
    kind.isWrapper = false ∧ kind.isTypeDeclaration = false ∧
      kind ≠ .fieldDeclaration ∧ kind ≠ .eventFieldDeclaration := by
  cases kind with
  | declarationList => decide
  | enumMemberList => decide
  | _ => cases h

theorem placesAmong_append (parent : Node) (around : List (Node × Nat)) (i : Nat)
    (nodes more : List Node) :
    Node.placesAmong parent around i (nodes ++ more) =
      Node.placesAmong parent around i nodes ++
        Node.placesAmong parent around (i + nodes.length) more := by
  induction nodes generalizing i with
  | nil => rfl
  | cons node rest ih =>
    rw [List.cons_append, Node.placesAmong, Node.placesAmong, ih, List.append_assoc,
      List.length_cons, Nat.add_assoc, Nat.add_comm 1]

/-- Nothing below a declaration without a body belongs to a visited type. -/
theorem collect_bodiless {p : Place} (hw : p.node.kind.isWrapper = false)
    (hd : Detached F tree p.around) (hbody : p.node.body? = none)
    (hu : Undeclared F tree (Node.preorders p.node.children)) :
    collect (printedAt F t tree) (Node.placesAmong p.node p.around 0 p.node.children) =
      .ok [] := by
  have hidx : p.node.children.findIdx? (fun child => child.kind.isBody) = none := by
    rw [List.findIdx?_eq_none_iff]
    intro child hc
    simpa using List.find?_eq_none.mp hbody child hc
  refine collect_nothing fun q hq => printedAt_nothing ?_
  refine typeAround?_placesAmong p.node.children p.node p.around 0 hu
    (fun j => typeAround?_other hw j hd) ?_ q hq
  intro j _ _ outer i rest he _ hi
  cases he
  rw [hidx] at hi
  cases hi

/-- Where the body stands among the children of a declaration. -/
structure BodyAt (node : Node) (pre : List Node) (body : Node) (post : List Node) : Prop where
  children : node.children = pre ++ body :: post
  members : members node = body.children
  kind : body.kind.isBody = true
  position : node.children.findIdx? (fun child => child.kind.isBody) = some pre.length

theorem bodyAt_of_body? {node body : Node} (h : node.body? = some body) :
    ∃ pre post, BodyAt node pre body post := by
  obtain ⟨hb, pre, post, hchildren, hpre⟩ := List.find?_eq_some_iff_append.mp h
  refine ⟨pre, post, hchildren, by rw [members, h]; rfl, hb, ?_⟩
  have hnone : pre.findIdx? (fun child => child.kind.isBody) = none := by
    rw [List.findIdx?_eq_none_iff]
    intro child hc
    simpa using hpre child hc
  rw [hchildren, List.findIdx?_append, hnone]
  simp [List.findIdx?_cons, hb]

/-- A child other than the body stands at another position than the body. -/
theorem BodyAt.detached {node body : Node} {pre post : List Node} (h : BodyAt node pre body post)
    {j : Nat} (hj : j ≠ pre.length) (around : List (Node × Nat)) :
    Detached F tree ((node, j) :: around) := by
  intro outer i rest he _ hi
  cases he
  rw [h.position] at hi
  exact absurd (Option.some.inj hi).symm hj

/-- Next to the body no declaration is visited. -/
theorem BodyAt.undeclared {node body : Node} {pre post : List Node}
    (h : BodyAt node pre body post) (hnodup : (declarationKeys tree node.children).Nodup)
    (hu : ∀ n ∈ Node.preorders node.children, n.kind.isTypeDeclaration = true →
      tree.key n ∉ declarationKeys tree (Symbols.members node) →
      F.openTypeOfNode? tree n = none) :
    Undeclared F tree (Node.preorders pre) ∧ Undeclared F tree (Node.preorders post) := by
  rw [h.children, declarationKeys_append, declarationKeys_cons] at hnodup
  obtain ⟨_, hnodup', hdisj⟩ := List.nodup_append.mp hnodup
  obtain ⟨_, _, hdisj'⟩ := List.nodup_append.mp hnodup'
  have hin : (declarationKeys tree (Symbols.members node)).Sublist
      (declarationKeys tree [body]) := by
    rw [h.members]
    exact declarationKeys_sublist tree (preorders_children body)
  constructor
  · intro n hn hk
    refine hu n (by rw [h.children, Node.preorders_append]; simp [hn]) hk fun hmem => ?_
    exact hdisj _ (mem_declarationKeys tree hn hk) _
      (List.mem_append_left _ (hin.subset hmem)) rfl
  · intro n hn hk
    refine hu n (by rw [h.children, Node.preorders_append, Node.preorders]; simp [hn]) hk
      fun hmem => ?_
    exact hdisj' _ (hin.subset hmem) _ (mem_declarationKeys tree hn hk) rfl

/-- A declaration with a body adds what the members in the body add. Nothing else below it belongs
to a visited type. -/
theorem collect_members {p : Place} {names : List String}
    (hw : p.node.kind.isWrapper = false) (hself : printedAt F t tree p = .ok [])
    (hd : Detached F tree p.around) (hnodup : (declarationKeys tree p.node.children).Nodup)
    (hu : ∀ n ∈ Node.preorders p.node.children, n.kind.isTypeDeclaration = true →
      tree.key n ∉ declarationKeys tree (members p.node) → F.openTypeOfNode? tree n = none)
    (h : ∀ ps : List Place, ps.map Place.node = members p.node →
      (∀ q ∈ ps, Situated F tree (if p.node.kind.isTypeDeclaration then
        F.openTypeOfNode? tree p.node else none) q) →
      collect (printedAt F t tree) (placesBelow ps) = .ok names) :
    collect (printedAt F t tree) (p.node.placesIn p.around) = .ok names := by
  have hother : ∀ j, F.typeAround? tree ((p.node, j) :: p.around) = none :=
    fun j => typeAround?_other hw j hd
  rw [Node.placesIn_eq, ← List.nil_append names]
  refine collect_cons hself ?_
  cases hbody : p.node.body? with
  | none =>
    have hmembers : members p.node = [] := by rw [members, hbody]; rfl
    rw [← h [] (by rw [hmembers]; rfl) (by simp)]
    refine collect_bodiless hw hd hbody fun n hn hk => hu n hn hk ?_
    rw [hmembers]
    exact List.not_mem_nil
  | some body =>
    obtain ⟨pre, post, hat⟩ := bodyAt_of_body? hbody
    obtain ⟨hupre, hupost⟩ := hat.undeclared hnodup hu
    obtain ⟨hbw, hbt, hbf, hbe⟩ := isBody_kind hat.kind
    have hposition := hat.position
    rw [hat.children, placesAmong_append, Node.placesAmong, Nat.zero_add]
    rw [← List.nil_append names, ← List.append_nil names]
    refine collect_append (collect_nothing fun q hq => printedAt_nothing ?_)
      (collect_append ?_ (collect_nothing fun q hq => printedAt_nothing ?_))
    · exact typeAround?_placesAmong pre p.node p.around 0 hupre hother
        (fun j _ hj => hat.detached (by omega) _) q hq
    · refine collect_children (p := ⟨body, (p.node, pre.length) :: p.around⟩)
        (if p.node.kind.isTypeDeclaration then F.openTypeOfNode? tree p.node else none)
        (printedAt_of_kind hbf hbe) hbt (fun i => ?_)
        (fun ps hps hsit => h ps (hps.trans hat.members.symm) hsit)
      simp only [Table.typeAround?, declarationAround?, hbw, hposition, Bool.false_eq_true,
        if_false, decide_true, Bool.and_true]
      split <;> rfl
    · exact typeAround?_placesAmong post p.node p.around _ hupost hother
        (fun j hj _ => hat.detached (by omega) _) q hq

/-! ## The pass over a tree -/

/-- The nodes have not been visited before, and afterwards their records are not touched. -/
def Known (F : Table) (tree : SourceTree) (nodes : List Node) (table last : Table) : Prop :=
  ∀ n ∈ Node.preorders nodes, n.kind.isTypeDeclaration = true →
    table.typeOfNode? (tree.key n) = none ∧
      F.typeOfNode? (tree.key n) = last.typeOfNode? (tree.key n)

theorem openTypeOfNode?_none {n : Node} (h : F.typeOfNode? (tree.key n) = none) :
    F.openTypeOfNode? tree n = none := by
  rw [Table.openTypeOfNode?, h]
  rfl

theorem nodup_cons_keys {node : Node} {rest : List Node}
    (h : (declarationKeys tree (node :: rest)).Nodup) :
    (declarationKeys tree [node]).Nodup ∧ (declarationKeys tree rest).Nodup ∧
      ∀ key ∈ declarationKeys tree [node], key ∉ declarationKeys tree rest := by
  rw [declarationKeys_cons] at h
  obtain ⟨hn, hr, hd⟩ := List.nodup_append.mp h
  exact ⟨hn, hr, fun key hk hmem => hd key hk key hmem rfl⟩

theorem mem_preorders_cons {node n : Node} {rest : List Node} (h : n ∈ Node.preorders [node]) :
    n ∈ Node.preorders (node :: rest) := by
  rw [Node.preorders, Node.preorders, List.append_nil] at h
  rw [Node.preorders]
  exact List.mem_append_left _ h

namespace Known

variable {node : Node} {rest inner : List Node} {table start mid last : Table} {scope : Scope}
  {within : Option TypePath}

/-- What is known of the later siblings once the first node was declared. -/
theorem later (h : Known F tree (node :: rest) table last)
    (hnodup : (declarationKeys tree (node :: rest)).Nodup)
    (hmid : ∀ key, key ∉ declarationKeys tree [node] →
      mid.typeOfNode? key = table.typeOfNode? key) :
    Known F tree rest mid last := by
  intro n hn hk
  have hmem : n ∈ Node.preorders (node :: rest) := by
    rw [Node.preorders]
    exact List.mem_append_right _ hn
  obtain ⟨hfresh, hlast⟩ := h n hmem hk
  refine ⟨?_, hlast⟩
  rw [hmid _ fun hown => (nodup_cons_keys hnodup).2.2 _ hown (mem_declarationKeys tree hn hk)]
  exact hfresh

/-- The last table knows of a node inside of the first node what was known after that node. -/
theorem at_mid (h : Known F tree (node :: rest) table last)
    (hnodup : (declarationKeys tree (node :: rest)).Nodup)
    (hr : Declares tree scope within rest mid last) {n : Node}
    (hn : n ∈ Node.preorders [node]) (hk : n.kind.isTypeDeclaration = true) :
    F.typeOfNode? (tree.key n) = mid.typeOfNode? (tree.key n) := by
  have hown := mem_declarationKeys tree hn hk
  rw [(h n (mem_preorders_cons hn) hk).2, hr.typeOfNode? ((nodup_cons_keys hnodup).2.2 _ hown)]

/-- What is known of nodes inside of the first node. -/
theorem inside (h : Known F tree (node :: rest) table last)
    (hnodup : (declarationKeys tree (node :: rest)).Nodup)
    (hsub : (Node.preorders inner).Sublist (Node.preorders [node]))
    (hr : Declares tree scope within rest mid last)
    (hstart : ∀ n ∈ Node.preorders inner, n.kind.isTypeDeclaration = true →
      start.typeOfNode? (tree.key n) = table.typeOfNode? (tree.key n)) :
    Known F tree inner start mid := by
  intro n hn hk
  rw [hstart n hn hk, h.at_mid hnodup hr (hsub.subset hn) hk]
  exact ⟨(h n (mem_preorders_cons (hsub.subset hn)) hk).1, rfl⟩

/-- A declaration in the first node that was not visited declares nothing. -/
theorem unvisited (h : Known F tree (node :: rest) table last)
    (hnodup : (declarationKeys tree (node :: rest)).Nodup)
    (hr : Declares tree scope within rest mid last) {n : Node}
    (hn : n ∈ Node.preorders [node]) (hk : n.kind.isTypeDeclaration = true)
    (hmid : mid.typeOfNode? (tree.key n) = table.typeOfNode? (tree.key n)) :
    F.openTypeOfNode? tree n = none := by
  apply openTypeOfNode?_none
  rw [h.at_mid hnodup hr hn hk, hmid]
  exact (h n (mem_preorders_cons hn) hk).1

/-- A node without visited nodes inside declares nothing. -/
theorem undeclared (h : Known F tree (node :: rest) table last)
    (hnodup : (declarationKeys tree (node :: rest)).Nodup)
    (hr : Declares tree scope within rest mid last)
    (hmid : mid.nodeTypes = table.nodeTypes) : Undeclared F tree node.preorder := by
  intro n hn hk
  refine h.unvisited hnodup hr (by simpa [Node.preorders] using hn) hk ?_
  exact Table.typeOfNode?_of_nodeTypes hmid _

end Known

theorem collect_below_cons {p : Place} {ps : List Place} {names others : List String}
    (h : collect (printedAt F t tree) (p.node.placesIn p.around) = .ok names)
    (hr : collect (printedAt F t tree) (placesBelow ps) = .ok others) :
    collect (printedAt F t tree) (placesBelow (p :: ps)) = .ok (names ++ others) := by
  rw [placesBelow, List.flatMap_cons]
  exact collect_append h hr

/-- A member of a type adds the printable ones of the fields that it stores. -/
theorem printedAt_storage {table : Table} {scope : Scope} {owner : TypePath} {p : Place}
    {fields : List FieldEntry} (hs : Situated F tree (some owner) p)
    (hw : table.hasType owner = true) (hg : Grows table F)
    (hf : storedFields tree scope owner (table.kindOf? owner) p.node = .ok fields) :
    printedAt F t tree p = .ok (printed t fields) := by
  have hwithin := hs.within
  rw [Table.typeAround?] at hwithin
  rw [printedAt, hwithin]
  by_cases ho : owner = t
  · subst ho
    obtain ⟨kind, hkind⟩ := (table.hasType_iff owner).mp hw
    rw [if_pos rfl, hg.kinds owner kind hkind, ← hkind]
    exact printedNames_of_stored hf
  · rw [if_neg (by simpa using ho),
      printed_other (fun f hf' => ((storedFields_spec hf).1 f hf').2) ho]

/-- The type of a declaration that was visited counts unless it is an enumeration. -/
theorem openTypeOfNode?_visited {table : Table} {node : Node} {u : TypePath} {kind : TypeKind}
    (hn : F.typeOfNode? (tree.key node) = some u) (hk : table.kindOf? u = some kind)
    (hg : Grows table F) :
    F.openTypeOfNode? tree node = if kind = .enumType then none else some u := by
  rw [Table.openTypeOfNode?, hn, Option.filter_some, hg.kinds u kind hk]
  by_cases h : kind = .enumType
  · simp [h]
  · simp [h]

theorem declarationKeys_self {node : Node} (hk : node.kind.isTypeDeclaration = true) :
    declarationKeys tree [node] = tree.key node :: declarationKeys tree node.children := by
  rw [declarationKeys, Node.preorders, Node.preorders, List.append_nil, Node.preorder_eq,
    List.filter_cons_of_pos (p := fun n : Node => n.kind.isTypeDeclaration) hk, List.map_cons]
  rfl

/-- What is known about nodes that are declared: what is around them exists, and the last table
tells of each declaration among them which type it declares. -/
structure Covers (F : Table) (tree : SourceTree) (within : Option TypePath) (nodes : List Node)
    (table last : Table) : Prop where
  owner : ∀ u, within = some u → table.hasType u = true
  grows : Grows last F
  nodup : (declarationKeys tree nodes).Nodup
  known : Known F tree nodes table last

/-- The places of some nodes add what declaring the nodes adds. -/
def Collects (F : Table) (t : TypePath) (tree : SourceTree) (within : Option TypePath)
    (nodes : List Node) (table last : Table) : Prop :=
  Covers F tree within nodes table last → ∀ new, last.fields = table.fields ++ new →
    ∀ ps : List Place, ps.map Place.node = nodes → (∀ p ∈ ps, Situated F tree within p) →
      collect (printedAt F t tree) (placesBelow ps) = .ok (printed t new)

section

variable {node : Node} {rest : List Node} {scope : Scope} {within : Option TypePath}
  {table mid last : Table}

theorem Covers.later (h : Covers F tree within (node :: rest) table last)
    (hgrow : Grows table mid)
    (hmid : ∀ key, key ∉ declarationKeys tree [node] →
      mid.typeOfNode? key = table.typeOfNode? key) :
    Covers F tree within rest mid last :=
  ⟨fun u hu => hgrow.hasType (h.owner u hu), h.grows, (nodup_cons_keys h.nodup).2.1,
    h.known.later h.nodup hmid⟩

theorem Covers.inside {inner : List Node} {around : Option TypePath} {start : Table}
    (h : Covers F tree within (node :: rest) table last)
    (hr : Declares tree scope within rest mid last)
    (hsub : (Node.preorders inner).Sublist (Node.preorders [node]))
    (hstart : ∀ n ∈ Node.preorders inner, n.kind.isTypeDeclaration = true →
      start.typeOfNode? (tree.key n) = table.typeOfNode? (tree.key n))
    (howner : ∀ u, around = some u → start.hasType u = true) :
    Covers F tree around inner start mid :=
  ⟨howner, hr.grows.trans h.grows,
    (nodup_cons_keys h.nodup).1.sublist (declarationKeys_sublist tree hsub),
    h.known.inside h.nodup hsub hr hstart⟩

/-- A node that is not entered adds what it adds itself. -/
theorem Covers.leaf (h : Covers F tree within (node :: rest) table last)
    (hr : Declares tree scope within rest mid last) (hmid : mid.nodeTypes = table.nodeTypes)
    (hw : node.kind.isWrapper = false) {p : Place} (hp : p.node = node)
    (hs : Situated F tree within p) {names : List String}
    (hself : printedAt F t tree p = .ok names) :
    collect (printedAt F t tree) (p.node.placesIn p.around) = .ok names := by
  subst hp
  exact collect_leaf hw hs.detached (h.known.undeclared h.nodup hr hmid) hself

/-- The first node, then the rest. -/
theorem collects_cons (inside : List FieldEntry) (hr : Declares tree scope within rest mid last)
    (hgrow : Grows table mid)
    (hmid : ∀ key, key ∉ declarationKeys tree [node] →
      mid.typeOfNode? key = table.typeOfNode? key)
    (hinside : mid.fields = table.fields ++ inside)
    (hfirst : Covers F tree within (node :: rest) table last → ∀ p : Place, p.node = node →
      Situated F tree within p →
      collect (printedAt F t tree) (p.node.placesIn p.around) = .ok (printed t inside))
    (hrest : Collects F t tree within rest mid last) :
    Collects F t tree within (node :: rest) table last := by
  intro hc new hnew ps hps hsit
  obtain ⟨p, ps, rfl, rfl, hnodes⟩ := List.map_eq_cons_iff.mp hps
  obtain ⟨after, hafter, _⟩ := hr.fieldsFrom
  have hsplit : new = inside ++ after := by
    rw [hafter, hinside, List.append_assoc] at hnew
    exact (List.append_cancel_left hnew).symm
  rw [hsplit, printed_append]
  refine collect_below_cons (hfirst hc p rfl (hsit p (by simp))) ?_
  exact hrest (hc.later hgrow hmid) after hafter ps hnodes fun q hq => hsit q (by simp [hq])

/-- A node that leaves fields and records of nodes alone, before the rest. -/
theorem collects_leaf (hr : Declares tree scope within rest mid last) (hgrow : Grows table mid)
    (hmid : mid.nodeTypes = table.nodeTypes) (hfields : mid.fields = table.fields)
    (hw : node.kind.isWrapper = false)
    (hself : ∀ p : Place, p.node = node → Situated F tree within p →
      printedAt F t tree p = .ok [])
    (hrest : Collects F t tree within rest mid last) :
    Collects F t tree within (node :: rest) table last := by
  refine collects_cons [] hr hgrow (fun key _ => Table.typeOfNode?_of_nodeTypes hmid key)
    (by rw [hfields, List.append_nil]) ?_ hrest
  exact fun hc p hp hs => hc.leaf hr hmid hw hp hs (hself p hp hs)

theorem collects_block {segments : List Segment} (hk : node.kind = .namespaceDeclaration)
    (hb : Declares tree (Table.withScope tree segments scope table).1 none (members node)
      (Table.withScope tree segments scope table).2 mid)
    (hr : Declares tree scope within rest mid last)
    (hbody : Collects F t tree none (members node)
      (Table.withScope tree segments scope table).2 mid)
    (hrest : Collects F t tree within rest mid last) :
    Collects F t tree within (node :: rest) table last := by
  obtain ⟨inside, hinside, _⟩ := hb.fieldsFrom
  have hin := (preorders_members node).trans (preorders_children node)
  have hsub := declarationKeys_sublist tree hin
  have hstart : ∀ key, (Table.withScope tree segments scope table).2.typeOfNode? key =
      table.typeOfNode? key := fun key => Table.typeOfNode?_of_nodeTypes (by simp) key
  have hmid : ∀ key, key ∉ declarationKeys tree (members node) →
      mid.typeOfNode? key = table.typeOfNode? key := by
    intro key hkey
    rw [hb.typeOfNode? hkey, hstart]
  refine collects_cons inside hr ((Grows.withScope table tree scope segments).trans hb.grows)
    (fun key hkey => hmid key fun hmem => hkey (hsub.subset hmem))
    (by rw [hinside, Table.withScope_fields]) ?_ hrest
  intro hc p hp hs
  subst hp
  refine collect_members (by rw [hk]; rfl) (printedAt_of_kind (by simp [hk]) (by simp [hk]))
    hs.detached ((nodup_cons_keys hc.nodup).1.sublist
      (declarationKeys_sublist tree (preorders_children p.node))) ?_ ?_
  · intro n hn hkn hout
    exact hc.known.unvisited hc.nodup hr ((preorders_children p.node).subset hn) hkn (hmid _ hout)
  · intro qs hqs hqsit
    rw [hk] at hqsit
    exact hbody (hc.inside hr hin (fun n _ _ => hstart _) fun u hu => by cases hu) inside hinside
      qs hqs hqsit

/-- What is known of a declaration of a type and of what it contains. -/
theorem Covers.declared {kind : TypeKind} {u : TypePath} {parameters : List String}
    (h : Covers F tree within (node :: rest) table last) (hk : node.kind = .typeDeclaration kind)
    (hb : Declares tree scope (some u)
      (openMembers (table.withType tree node kind scope u parameters) u node)
      (table.withType tree node kind scope u parameters) mid)
    (hr : Declares tree scope within rest mid last) :
    F.typeOfNode? (tree.key node) = some u ∧
    (∀ n ∈ Node.preorders node.children, n.kind.isTypeDeclaration = true →
      tree.key n ∉ declarationKeys tree
        (openMembers (table.withType tree node kind scope u parameters) u node) →
      F.openTypeOfNode? tree n = none) ∧
    Covers F tree (some u)
      (openMembers (table.withType tree node kind scope u parameters) u node)
      (table.withType tree node kind scope u parameters) mid := by
  have htype : node.kind.isTypeDeclaration = true := by rw [hk]; rfl
  have hin := preorders_openMembers (table.withType tree node kind scope u parameters) u node
  have hsub := declarationKeys_sublist tree hin
  have hkeys := (nodup_cons_keys h.nodup).1
  rw [declarationKeys_self htype, List.nodup_cons] at hkeys
  have hne : ∀ n ∈ Node.preorders node.children, n.kind.isTypeDeclaration = true →
      tree.key n ≠ tree.key node := by
    intro n hn hkn he
    exact hkeys.1 (he ▸ mem_declarationKeys tree hn hkn)
  refine ⟨?_, ?_, ?_⟩
  · rw [h.known.at_mid h.nodup hr (by simp [Node.preorders, Node.mem_preorder_self]) htype,
      hb.typeOfNode? fun hmem => hkeys.1 (hsub.subset hmem), Table.withType_typeOfNode?,
      if_pos rfl]
  · intro n hn hkn hout
    refine h.known.unvisited h.nodup hr ((preorders_children node).subset hn) hkn ?_
    rw [hb.typeOfNode? hout, Table.withType_typeOfNode?, if_neg (hne n hn hkn)]
  · refine h.inside hr (hin.trans (preorders_children node)) ?_ ?_
    · intro n hn hkn
      rw [Table.withType_typeOfNode?, if_neg (hne n (hin.subset hn) hkn)]
    · intro v hv
      cases hv
      exact Table.withType_hasType _ _ _ _ _ _ _

theorem collects_type {kind : TypeKind} {u : TypePath} {parameters : List String}
    (hk : node.kind = .typeDeclaration kind)
    (hb : Declares tree scope (some u)
      (openMembers (table.withType tree node kind scope u parameters) u node)
      (table.withType tree node kind scope u parameters) mid)
    (hr : Declares tree scope within rest mid last)
    (hbody : Collects F t tree (some u)
      (openMembers (table.withType tree node kind scope u parameters) u node)
      (table.withType tree node kind scope u parameters) mid)
    (hrest : Collects F t tree within rest mid last) :
    Collects F t tree within (node :: rest) table last := by
  obtain ⟨inside, hinside, _⟩ := hb.fieldsFrom
  have htype : node.kind.isTypeDeclaration = true := by rw [hk]; rfl
  have hsub := declarationKeys_sublist tree
    (preorders_openMembers (table.withType tree node kind scope u parameters) u node)
  refine collects_cons inside hr
    ((Grows.withType table tree node kind scope u parameters).trans hb.grows) ?_
    (by rw [hinside, Table.withType_fields]) ?_ hrest
  · intro key hkey
    rw [declarationKeys_self htype, List.mem_cons, not_or] at hkey
    rw [hb.typeOfNode? fun hmem => hkey.2 (hsub.subset hmem), Table.withType_typeOfNode?,
      if_neg hkey.1]
  · intro hc p hp hs
    subst hp
    obtain ⟨hvisited, hunvisited, hcovers⟩ := hc.declared hk hb hr
    have hinner := hbody hcovers inside hinside
    have hself : printedAt F t tree p = .ok [] :=
      printedAt_of_kind (by simp [hk]) (by simp [hk])
    obtain ⟨k, hkind⟩ := (Table.hasType_iff _ u).mp
      (Table.withType_hasType table tree p.node kind scope u parameters)
    have hopen := openTypeOfNode?_visited hvisited hkind
      (hb.grows.trans (hr.grows.trans hc.grows))
    -- An enumeration is not entered, and nothing below it belongs to a visited type.
    by_cases henum : k = .enumType
    · have hempty : openMembers (table.withType tree p.node kind scope u parameters) u p.node =
          [] := by
        rw [openMembers, hkind, henum, if_pos rfl]
      rw [hempty] at hunvisited hinner
      rw [if_pos henum] at hopen
      rw [← hinner [] rfl (by simp)]
      refine collect_leaf (by rw [hk]; rfl) hs.detached (fun n hn hkn => ?_) hself
      rw [Node.preorder_eq] at hn
      rcases List.mem_cons.mp hn with rfl | hbelow
      · exact hopen
      · exact hunvisited n hbelow hkn List.not_mem_nil
    · have hmembers : openMembers (table.withType tree p.node kind scope u parameters) u p.node =
          members p.node := by
        rw [openMembers, hkind, if_neg (by simpa using henum)]
      have hkeys := (nodup_cons_keys hc.nodup).1
      rw [declarationKeys_self htype, List.nodup_cons] at hkeys
      rw [hmembers] at hunvisited hinner
      rw [if_neg henum] at hopen
      refine collect_members (by rw [hk]; rfl) hself hs.detached hkeys.2 hunvisited ?_
      intro qs hqs hqsit
      rw [if_pos htype, hopen] at hqsit
      exact hinner qs hqs hqsit

end

theorem isWrapper_of_not_opening {kind : Kind} (h : isOpening kind = false) :
    kind.isWrapper = false := by
  cases kind with
  | wrapper w => cases h
  | _ => rfl

theorem isOpening_of_storage {kind : Kind} (h : isStorage kind = true) :
    isOpening kind = false := by
  cases kind with
  | fieldDeclaration => rfl
  | propertyDeclaration => rfl
  | eventFieldDeclaration => rfl
  | _ => cases h

/-- **The pass adds to the printed fields what the places add.** -/
theorem Symbols.Declares.collects {scope : Scope} {within : Option TypePath} {nodes : List Node}
    {table last : Table} (h : Declares tree scope within nodes table last) :
    Collects F t tree within nodes table last := by
  induction h with
  | nil =>
    intro _ new hnew ps hps _
    rw [List.map_eq_nil_iff] at hps
    rw [List.self_eq_append_right] at hnew
    rw [hps, hnew]
    rfl
  | @directive scope within node rest table last d hk hd hr ih =>
    refine collects_leaf hr (Grows.withDirective table tree node scope d) (by simp) (by simp)
      (by rw [hk]; rfl) ?_ ih
    intro p hp _
    exact printedAt_of_kind (by simp [hp, hk]) (by simp [hp, hk])
  | @block scope within node rest table mid last segments hk hn hb hr ihb ihr =>
    exact collects_block hk hb hr ihb ihr
  | @file scope within node rest table mid last segments hk hn hb hr ihb ihr =>
    obtain ⟨inside, hinside, _⟩ := hb.fieldsFrom
    have hsub := declarationKeys_sublist tree (preorders_children node)
    have hstart : ∀ key, (Table.withScope tree segments scope table).2.typeOfNode? key =
        table.typeOfNode? key := fun key => Table.typeOfNode?_of_nodeTypes (by simp) key
    refine collects_cons inside hr ((Grows.withScope table tree scope segments).trans hb.grows)
      ?_ (by rw [hinside, Table.withScope_fields]) ?_ ihr
    · intro key hkey
      rw [hb.typeOfNode? fun hmem => hkey (hsub.subset hmem), hstart]
    · intro hc p hp hs
      subst hp
      refine collect_children none (printedAt_of_kind (by simp [hk]) (by simp [hk]))
        (by rw [hk]; rfl) (fun i => typeAround?_other (by rw [hk]; rfl) i hs.detached) ?_
      exact ihb (hc.inside hr (preorders_children p.node) (fun n _ _ => hstart _)
        fun u hu => by cases hu) inside hinside
  | @storage scope owner node rest table last fields hk hf hr ih =>
    refine collects_cons fields hr (Grows.withFields table fields) (fun key _ => rfl) rfl ?_ ih
    intro hc p hp hs
    have hwrap := isWrapper_of_not_opening (isOpening_of_storage hk)
    have hgrow := (Grows.withFields table fields).trans (hr.grows.trans hc.grows)
    refine hc.leaf hr rfl hwrap hp hs ?_
    exact printedAt_storage hs (hc.owner owner rfl) hgrow (hp ▸ hf)
  | @type scope within node rest table mid last kind u parameters hk ht hb hr ihb ihr =>
    exact collects_type hk hb hr ihb ihr
  | @wrapper scope within node rest table mid last w hk hb hr ihb ihr =>
    obtain ⟨inside, hinside, _⟩ := hb.fieldsFrom
    have hsub := declarationKeys_sublist tree (preorders_children node)
    refine collects_cons inside hr hb.grows
      (fun key hkey => hb.typeOfNode? fun hmem => hkey (hsub.subset hmem)) hinside ?_ ihr
    intro hc p hp hs
    subst hp
    refine collect_children within (printedAt_of_kind (by simp [hk]) (by simp [hk]))
      (by rw [hk]; rfl) (fun i => ?_) ?_
    · rw [typeAround?_wrapper (by rw [hk]; rfl)]
      exact hs.within
    · exact ihb (hc.inside hr (preorders_children p.node) (fun n _ _ => rfl) hc.owner) inside
        hinside
  | @skip scope within node rest table last hk hs hr ih =>
    refine collects_leaf hr (Grows.refl table) rfl rfl (isWrapper_of_not_opening hk) ?_ ih
    intro p hp hsit
    rcases hs with hnone | hstore
    · exact printedAt_nothing (hsit.within.trans hnone)
    · rw [← hp] at hstore
      apply printedAt_of_kind <;> intro hkind <;> rw [hkind] at hstore <;> cases hstore

/-- Places of a whole tree. The root itself belongs to nothing, and is never visited. -/
theorem Symbols.DeclaresTree.collects {table last : Table} (h : DeclaresTree tree table last)
    {new : List FieldEntry} (hnew : last.fields = table.fields ++ new) (hg : Grows last F)
    (hkeys : KeysDistinct Kind.isTypeDeclaration tree)
    (hfresh : ∀ key : NodeKey, key.tree = tree.id → table.typeOfNode? key = none)
    (hlast : ∀ key : NodeKey, key.tree = tree.id → F.typeOfNode? key = last.typeOfNode? key) :
    collect (printedAt F t tree) tree.root.places = .ok (printed t new) := by
  have hroot : (declarationKeys tree [tree.root]).Nodup := by
    rw [declarationKeys, Node.preorders, Node.preorders, List.append_nil]
    exact hkeys
  rw [Node.places, Node.placesIn_eq, ← List.nil_append (printed t new)]
  refine collect_cons (printedAt_nothing rfl) ?_
  rw [← Place.childrenFrom_placesIn ⟨tree.root, []⟩]
  have hcovers : Covers F tree none tree.root.children (table.withFrame tree .global true).2
      last := by
    refine ⟨?_, hg, ?_, fun n _ _ => ⟨hfresh _ rfl, hlast _ rfl⟩⟩
    · intro u hu
      cases hu
    · exact hroot.sublist (declarationKeys_sublist tree (preorders_children tree.root))
  refine Declares.collects h hcovers new hnew _ (Place.childrenFrom_node _ 0 _) fun q hq => ?_
  obtain ⟨child, _, rfl⟩ := List.mem_map.mp hq
  refine ⟨rfl, detached_of_undeclared (fun hk => openTypeOfNode?_none ?_) _ _⟩
  rw [declarationKeys_self hk, List.nodup_cons] at hroot
  rw [hlast _ rfl, DeclaresTree.typeOfNode? h hroot.1, hfresh _ rfl]

end

/-- All places of some trees, in tree order and then in source order. -/
def allPlaces (trees : List SourceTree) : List (SourceTree × Place) :=
  trees.flatMap fun tree => tree.root.places.map (Prod.mk tree)

theorem collect_map {α β : Type} (read : β → Except Fault (List String)) (f : α → β)
    (items : List α) : collect read (items.map f) = collect (fun a => read (f a)) items := by
  rw [collect, collect, List.mapM_map]
  rfl

theorem Symbols.DeclaresTrees.collects {F : Table} {t : TypePath} {trees : List SourceTree}
    {table last : Table} (h : DeclaresTrees trees table last) {new : List FieldEntry}
    (hnew : last.fields = table.fields ++ new) (hg : Grows last F)
    (hids : (trees.map SourceTree.id).Nodup)
    (hkeys : ∀ tree ∈ trees, KeysDistinct Kind.isTypeDeclaration tree)
    (hfresh : ∀ tree ∈ trees, ∀ key : NodeKey, key.tree = tree.id → table.typeOfNode? key = none)
    (hlast : ∀ tree ∈ trees, ∀ key : NodeKey, key.tree = tree.id →
      F.typeOfNode? key = last.typeOfNode? key) :
    collect (fun q => printedAt F t q.1 q.2) (allPlaces trees) = .ok (printed t new) := by
  induction h generalizing new with
  | nil =>
    rw [List.self_eq_append_right] at hnew
    rw [hnew]
    rfl
  | @cons tree rest table mid last ht hr ih =>
    obtain ⟨inside, hinside, _⟩ := Declares.fieldsFrom ht
    obtain ⟨after, hafter, _⟩ := hr.fieldsFrom
    obtain ⟨hid, hids'⟩ := List.nodup_cons.mp hids
    have hsplit : new = inside ++ after := by
      rw [hafter, hinside, Table.withFrame, List.append_assoc] at hnew
      exact (List.append_cancel_left hnew).symm
    have hforeign : ∀ other ∈ rest, other.id ≠ tree.id :=
      fun other ho he => hid (he ▸ List.mem_map_of_mem ho)
    rw [hsplit, printed_append, allPlaces, List.flatMap_cons]
    refine collect_append ?_ (ih hafter hg hids' (fun other ho => hkeys other (by simp [ho])) ?_
      fun other ho => hlast other (by simp [ho]))
    · rw [collect_map]
      refine DeclaresTree.collects ht hinside (hr.grows.trans hg) (hkeys tree (by simp))
        (hfresh tree (by simp)) fun key hk => ?_
      rw [hlast tree (by simp) key hk, hr.typeOfNode? fun other ho => hk ▸ hforeign other ho]
    · intro other ho key hk
      rw [DeclaresTree.typeOfNode? ht fun hmem => hforeign other ho
        (hk.symm.trans (tree_of_mem_declarationKeys hmem))]
      exact hfresh other (by simp [ho]) key hk

/-- **The printable fields of a type are read off the trees.** -/
theorem printableFields_names {trees : List SourceTree} {r : Resolver}
    (hids : ((trees ++ [Marker.tree]).map SourceTree.id).Nodup)
    (hkeys : ∀ tree ∈ trees, KeysDistinct Kind.isTypeDeclaration tree)
    (hr : Resolver.found trees = .ok r) (t : TypePath) :
    collect (fun q => printedAt r.model.table t q.1 q.2) (allPlaces trees) =
      .ok ((r.model.printableFields t).map FieldEntry.name) := by
  obtain ⟨hfault, rfl⟩ := Resolver.found_eq hr
  obtain ⟨mid, htrees, hmarker⟩ := Resolver.compiled_ok hfault
  rw [List.map_append, List.nodup_append] at hids
  obtain ⟨hids', _, hdisjoint⟩ := hids
  have hfields := (Marker.declared hmarker).2.2
  refine htrees.collects ?_ ((Grows.withFrame _ _ _ _).trans (Declares.grows hmarker)) hids' hkeys
    (fun _ _ _ _ => rfl) fun tree ht key hk => ?_
  · rw [hfields]
    rfl
  · refine DeclaresTree.typeOfNode? hmarker fun hmem => ?_
    exact hdisjoint _ (List.mem_map_of_mem ht) _ (by simp)
      (hk.symm.trans (tree_of_mem_declarationKeys hmem))

end PrintGen
