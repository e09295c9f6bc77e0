import PrintGen.Proofs.WrappedTables

/-!
# A pass over wrapped members

The scan goes through wrappers like through all other nodes, and a wrapper is neither a candidate
nor a type declaration. So there are the same candidates with and without wrappers around members,
every node lies in the same type, and a pass comes to the same.
-/

namespace PrintGen

open Syntax Symbols

/-! ## The scan -/

/-- Whether a node of this kind may be a candidate. -/
def Syntax.Kind.mayCount (kind : Kind) : Bool :=
  kind = .fieldDeclaration || kind = .methodDeclaration

theorem Syntax.Kind.mayCount_iff {kind : Kind} :
    kind.mayCount = true ↔ kind = .fieldDeclaration ∨ kind = .methodDeclaration := by
  simp [mayCount]

/-- Where a visited node stands: the outline of the type declaration around it, its kind and its
range. -/
def Syntax.Occurrence.standing (o : Occurrence) : Option Node × Kind × Nat × Nat :=
  (o.owner.map Node.outline, o.node.kind, o.node.start, o.node.stop)

namespace Syntax.Node

theorem visitsAmong_cons (owner : Option Node) (node : Node) (rest : List Node) :
    visitsAmong owner (node :: rest) = ⟨owner, node⟩ ::
      (visitsAmong (ownerBelow owner node) node.children ++ visitsAmong owner rest) := by
  rw [visitsAmong, visitsIn_eq, List.cons_append]

theorem visitsAmong_append (owner : Option Node) (nodes more : List Node) :
    visitsAmong owner (nodes ++ more) = visitsAmong owner nodes ++ visitsAmong owner more := by
  induction nodes with
  | nil => rfl
  | cons node rest ih => rw [List.cons_append, visitsAmong, ih, visitsAmong, List.append_assoc]

theorem occurrences_eq_visitsAmong (root : Node) :
    root.occurrences = visitsAmong none [root] := by
  rw [occurrences_eq_visits, visitsAmong, visitsAmong, List.append_nil]

mutual

theorem visitsIn_node (owner : Option Node) : ∀ node : Node,
    (node.visitsIn owner).map Occurrence.node = node.preorder
  | node@(.mk _ _ _ _ _ _ children) => by
    rw [visitsIn, preorder, List.map_cons, visitsAmong_node]

theorem visitsAmong_node (owner : Option Node) : ∀ nodes : List Node,
    (visitsAmong owner nodes).map Occurrence.node = preorders nodes
  | [] => rfl
  | node :: rest => by
    rw [visitsAmong, preorders, List.map_append, visitsIn_node, visitsAmong_node]

end

/-- A silent node has no candidates in or below it. -/
theorem Silent.visits {node : Node} (h : node.Silent) (owner : Option Node) :
    (node.visitsIn owner).filter (fun o => o.node.kind.mayCount) = [] := by
  refine List.filter_eq_nil_iff.mpr fun o ho hk => ?_
  have hmem : o.node ∈ node.preorder := by
    rw [← visitsIn_node owner node]
    exact List.mem_map_of_mem ho
  have hsilent := h o.node hmem
  rcases Kind.mayCount_iff.mp hk with hk | hk <;> rw [hk] at hsilent <;> cases hsilent

end Syntax.Node

namespace Symbols.Wraps

open Syntax.Node

/-- Declarations that differ in wrapped members only are owners that look the same. -/
theorem ownerBelow {p : Position} {kind : Kind} {children others : List Node}
    (h : Wraps (p.below kind) children others) (named missing : Bool) (start stop : Nat)
    (label : Option Label) {owner owner' : Option Node}
    (ho : owner'.map Node.outline = owner.map Node.outline) :
    (Node.ownerBelow owner' (.mk kind named missing start stop label others)).map Node.outline =
      (Node.ownerBelow owner (.mk kind named missing start stop label children)).map
        Node.outline := by
  cases kind with
  | typeDeclaration type =>
    exact congrArg some (h.outline rfl named missing start stop label)
  | _ => exact ho

/-- **The same candidates are visited,** in the same order and with the same owners. -/
theorem candidates {p : Position} {nodes others : List Node} (h : Wraps p nodes others)
    {owner owner' : Option Node} (ho : owner'.map Node.outline = owner.map Node.outline) :
    ((visitsAmong owner' others).filter fun o => o.node.kind.mayCount).map
        View.outline.occurrence =
      ((visitsAmong owner nodes).filter fun o => o.node.kind.mayCount).map
        View.outline.occurrence := by
  induction h generalizing owner owner' with
  | nil => rfl
  | @node p kind named missing start stop label children others rest rest' _ hbelow _ ihb ihr =>
    rw [visitsAmong_cons, visitsAmong_cons, List.filter_cons, List.filter_cons, List.filter_append,
      List.filter_append]
    have hinside := ihb (hbelow.ownerBelow named missing start stop label ho)
    have hafter := ihr ho
    change ((if kind.mayCount = true then _ else _ : List Occurrence)).map _ =
      (if kind.mayCount = true then _ else _ : List Occurrence).map _
    by_cases hk : kind.mayCount = true
    · -- A candidate has no members, so it is the same in outline wherever it stands.
      have hplain : p.below kind = Position.plain.below kind := by
        rcases Kind.mayCount_iff.mp hk with rfl | rfl <;> rfl
      have hself : View.outline.occurrence
            ⟨owner', .mk kind named missing start stop label others⟩ =
          View.outline.occurrence ⟨owner, .mk kind named missing start stop label children⟩ :=
        congrArg₂ Occurrence.mk ho (hbelow.outline hplain named missing start stop label)
      rw [if_pos hk, if_pos hk, List.map_cons, List.map_cons, hself, List.map_append,
        List.map_append]
      exact congrArg (List.cons _) (congrArg₂ (· ++ ·) hinside hafter)
    · rw [if_neg hk, if_neg hk, List.map_append, List.map_append]
      exact congrArg₂ (· ++ ·) hinside hafter
  | wrap _ _ _ ihinner ihrest =>
    rw [visitsAmong_cons, visitsAmong_append, List.filter_cons_of_neg Bool.false_ne_true,
      List.filter_append, List.filter_append, List.map_append, List.map_append]
    exact congrArg₂ (· ++ ·) (ihinner ho) (ihrest ho)
  | add hsilent _ ihrest =>
    rw [visitsAmong.eq_2 owner', List.filter_append, hsilent.visits, List.nil_append]
    exact ihrest ho

/-- **All nodes are visited again,** in the same order and in the same types. -/
theorem visits {p : Position} {nodes others : List Node} (h : Wraps p nodes others)
    {owner owner' : Option Node} (ho : owner'.map Node.outline = owner.map Node.outline) :
    ∃ kept : List Occurrence, kept.Sublist (visitsAmong owner' others) ∧
      kept.map Occurrence.standing = (visitsAmong owner nodes).map Occurrence.standing := by
  induction h generalizing owner owner' with
  | nil => exact ⟨[], List.Sublist.refl _, rfl⟩
  | @node p kind named missing start stop label children others rest rest' _ hbelow _ ihb ihr =>
    obtain ⟨inside, hsub, hinside⟩ := ihb (hbelow.ownerBelow named missing start stop label ho)
    obtain ⟨after, hsub', hafter⟩ := ihr ho
    have hself : Occurrence.standing ⟨owner', .mk kind named missing start stop label others⟩ =
        Occurrence.standing ⟨owner, .mk kind named missing start stop label children⟩ :=
      congrArg (Prod.mk · _) ho
    refine ⟨⟨owner', .mk kind named missing start stop label others⟩ :: (inside ++ after), ?_, ?_⟩
    · rw [visitsAmong_cons]
      exact (hsub.append hsub').cons_cons _
    · rw [visitsAmong_cons, List.map_cons, List.map_cons, hself, List.map_append, List.map_append,
        hinside, hafter]
      rfl
  | wrap _ _ _ ihinner ihrest =>
    obtain ⟨inside, hsub, hinside⟩ := ihinner ho
    obtain ⟨after, hsub', hafter⟩ := ihrest ho
    refine ⟨inside ++ after, ?_, ?_⟩
    · rw [visitsAmong_cons]
      exact (hsub.append hsub').cons _
    · rw [visitsAmong_append, List.map_append, List.map_append, hinside, hafter]
  | add _ _ ihrest =>
    obtain ⟨kept, hsub, hkept⟩ := ihrest ho
    refine ⟨kept, ?_, hkept⟩
    rw [visitsAmong.eq_2 owner']
    exact hsub.trans (List.sublist_append_right _ _)

end Symbols.Wraps

/-! ## Candidates -/

namespace Syntax.SourceTree

/-- What the outlines show of the visited nodes that may be candidates. -/
def countable (tree : SourceTree) : List Occurrence :=
  (tree.occurrences.filter fun o => o.node.kind.mayCount).map View.outline.occurrence

variable (tree : SourceTree)

theorem annotatedFields_outline :
    tree.annotatedFields.map View.outline.candidate =
      (tree.countable.filter fun o => o.node.isAnnotatedField).map
        fun o => ⟨tree.unparsed, o.owner, o.node⟩ := by
  have hfound : tree.countable.filter (fun o => o.node.isAnnotatedField) =
      (tree.occurrences.filter fun o => o.node.isAnnotatedField).map View.outline.occurrence :=
    filter_shown (fun o => o.node.outline_isAnnotatedField)
      fun o _ ho => Kind.mayCount_iff.mpr (.inl (isAnnotatedField_kind ho))
  rw [hfound, annotatedFields, List.map_map, List.map_map]
  rfl

theorem isStub_outline (stubName : Option String) (node : Node) :
    tree.unparsed.isStub stubName node.outline = tree.isStub stubName node :=
  View.outline.isStub stubName fun hk => readsMethod_outline tree hk

theorem stubs_outline (stubName : Option String) :
    (tree.stubs stubName).map (List.map View.outline.candidate) =
      (tree.countable.filterM fun o => tree.unparsed.isStub stubName o.node).map
        (List.map fun o => ⟨tree.unparsed, o.owner, o.node⟩) := by
  have hfound : tree.countable.filterM (fun o => tree.unparsed.isStub stubName o.node) =
      (tree.occurrences.filterM fun o => tree.isStub stubName o.node).map
        (List.map View.outline.occurrence) := by
    refine filterM_shown (fun o _ => tree.isStub_outline stubName o.node) fun o _ hk => ?_
    have hne : o.node.kind ≠ .methodDeclaration := by
      intro hm
      rw [Kind.mayCount_iff.mpr (.inr hm)] at hk
      cases hk
    rw [isStub, if_neg hne]
    rfl
  rw [hfound, stubs]
  cases tree.occurrences.filterM fun o => tree.isStub stubName o.node with
  | error fault => rfl
  | ok found =>
    refine congrArg Except.ok ?_
    rw [List.map_map, List.map_map]
    rfl

end Syntax.SourceTree

theorem mapM_forall₂ {ε α β γ : Type} {f : α → Except ε γ} {g : β → Except ε γ} {as : List α}
    {bs : List β} (h : List.Forall₂ (fun a b => g b = f a) as bs) : bs.mapM g = as.mapM f := by
  induction h with
  | nil => rfl
  | cons hab _ ih => rw [List.mapM_cons, List.mapM_cons, hab, ih]

theorem scan_outline (trees : List SourceTree) (stubName : Option String) :
    (scan trees stubName).map View.outline.candidates =
      (trees.mapM fun tree : SourceTree =>
        (tree.stubs stubName).map (List.map View.outline.candidate)).map fun stubs =>
          ⟨trees.flatMap fun tree => tree.annotatedFields.map View.outline.candidate,
            stubs.flatten⟩ := by
  rw [mapM_view, scan, ← List.map_flatMap]
  cases trees.mapM fun tree => tree.stubs stubName with
  | error fault => rfl
  | ok stubs => exact congrArg (fun found => Except.ok (Candidates.mk _ found)) List.map_flatten

/-- The candidates of a scan are fields and methods. -/
theorem readsMethod_of_scan {trees : List SourceTree} {stubName : Option String}
    {candidates : Candidates} (h : scan trees stubName = .ok candidates) :
    ∀ c ∈ candidates.stubs, View.outline.ReadsMethod c.tree c.node := by
  obtain ⟨-, rfl⟩ := scan_ok_iff.mp h
  intro c hc
  obtain ⟨q, hq, rfl⟩ := List.mem_map.mp hc
  refine readsMethod_outline q.1 (?_ : q.2.node.kind = .methodDeclaration)
  have hstub := of_decide_eq_true (List.mem_filter.mp hq).2
  by_contra hk
  rw [SourceTree.isStub, if_neg hk] at hstub
  cases hstub

/-- A pass comes to the same from the outlines of its candidates and its model. -/
theorem generated_outline (s : Settings) (trees : List SourceTree) :
    generated s trees = ((scan trees s.stubName.string?).map View.outline.candidates >>=
      fun candidates => (Resolver.found trees).map View.outline.resolver >>=
        fun r => r.outcome s candidates) := by
  rw [generated_eq_outcome, except_map_bind]
  refine except_bind_congr fun candidates hscan => ?_
  rw [except_map_bind]
  exact except_bind_congr fun r _ =>
    (View.outline.outcome r s (readsMethod_of_scan hscan)).symm

/-! ## Wrapped trees -/

theorem Symbols.Wrapped.countable {tree other : SourceTree} (h : Wrapped tree other) :
    other.countable = tree.countable := by
  rw [SourceTree.countable, SourceTree.occurrences, Node.occurrences_eq_visitsAmong,
    SourceTree.countable, SourceTree.occurrences, Node.occurrences_eq_visitsAmong]
  exact h.nodes.candidates rfl

section

variable {trees others : List SourceTree} (h : List.Forall₂ Wrapped trees others)

include h

/-- **The scan finds the same candidates.** -/
theorem scan_wrapped (stubName : Option String) :
    (scan others stubName).map View.outline.candidates =
      (scan trees stubName).map View.outline.candidates := by
  have hfields : others.flatMap (fun tree => tree.annotatedFields.map View.outline.candidate) =
      trees.flatMap fun tree => tree.annotatedFields.map View.outline.candidate := by
    induction h with
    | nil => rfl
    | cons hw _ ih =>
      rw [List.flatMap_cons, ih, List.flatMap_cons, SourceTree.annotatedFields_outline,
        SourceTree.annotatedFields_outline, hw.countable, hw.source]
  have hstubs : others.mapM (fun tree : SourceTree =>
        (tree.stubs stubName).map (List.map View.outline.candidate)) =
      trees.mapM fun tree : SourceTree =>
        (tree.stubs stubName).map (List.map View.outline.candidate) := by
    refine mapM_forall₂ (h.imp fun tree other hw => ?_)
    rw [SourceTree.stubs_outline, SourceTree.stubs_outline, hw.countable, hw.source]
  rw [scan_outline, scan_outline, hfields, hstubs]

/-- **Every node lies in the same type.** -/
theorem containingTypes_wrapped :
    List.Forall₂ (fun tree other => ∃ kept : List Occurrence, kept.Sublist other.occurrences ∧
      kept.map (fun o => (other.key o.node, (build others).model.containingType? other o.owner)) =
        tree.occurrences.map fun o =>
          (tree.key o.node, (build trees).model.containingType? tree o.owner)) trees others := by
  obtain ⟨hmodel, -⟩ := build_wrapped h
  refine h.imp fun tree other hw => ?_
  have hnone : (none : Option Node).map Node.outline = (none : Option Node).map Node.outline := rfl
  obtain ⟨kept, hsub, hkept⟩ := hw.nodes.visits hnone
  rw [← Node.occurrences_eq_visitsAmong] at hsub hkept
  have hplaces := congrArg (List.map fun q : Option Node × Kind × Nat × Nat =>
    ((⟨tree.unparsed.id, q.2.2.1, q.2.2.2, q.2.1⟩ : NodeKey),
      (View.outline.model (build trees).model).containingType? tree.unparsed q.1)) hkept
  rw [List.map_map, List.map_map] at hplaces
  refine ⟨kept, hsub, Eq.trans ?_ (hplaces.trans ?_)⟩
  · rw [← hmodel, ← hw.source]
    refine List.map_congr_left fun o _ => ?_
    exact congrArg (Prod.mk _)
      (View.outline.containingType? (build others).model other o.owner).symm
  · refine List.map_congr_left fun o _ => ?_
    exact congrArg (Prod.mk _) (View.outline.containingType? (build trees).model tree o.owner)

theorem Resolver.found_wrapped :
    (found others).map View.outline.resolver = (found trees).map View.outline.resolver := by
  have hall : List.Forall₂ Wrapped (trees ++ [Marker.tree]) (others ++ [Marker.tree]) :=
    List.rel_append h (.cons (Wrapped.refl Marker.tree) .nil)
  obtain ⟨hmodel, hfault⟩ := build_wrapped hall
  rw [found, compiled, hfault, found, compiled]
  cases (build (trees ++ [Marker.tree])).fault with
  | some fault => rfl
  | none => exact congrArg (fun m => Except.ok (Resolver.mk m (some Marker.type))) hmodel

/-- **A pass comes to the same whether members are wrapped or not.** -/
theorem generated_wrapped (s : Settings) : generated s others = generated s trees := by
  rw [generated_outline, scan_wrapped h, Resolver.found_wrapped h, ← generated_outline]

end

/-- **Wrappers around members are transparent.** Wrapping runs of members, at any number of places
and with silent nodes added, leaves the model as it is, up to the members below the nodes that it
keeps: there are the same namespaces, types, fields and directives, and bases and attributes are
bound to the same. The scan finds the same candidates, every node lies in the same type, and a pass
comes to the same fragments and diagnostics, or to the same fault. -/
theorem wrapping_members_changes_nothing (s : Settings) {trees others : List SourceTree}
    (h : List.Forall₂ Wrapped trees others) (before : Trace) :
    View.outline.model (build others).model = View.outline.model (build trees).model ∧
      (build others).fault = (build trees).fault ∧
      (∀ stubName, (scan others stubName).map View.outline.candidates =
        (scan trees stubName).map View.outline.candidates) ∧
      List.Forall₂ (fun tree other => ∃ kept : List Occurrence, kept.Sublist other.occurrences ∧
        kept.map (fun o =>
            (other.key o.node, (build others).model.containingType? other o.owner)) =
          tree.occurrences.map fun o =>
            (tree.key o.node, (build trees).model.containingType? tree o.owner)) trees others ∧
      resultOf (generate s others before) = resultOf (generate s trees before) := by
  obtain ⟨hmodel, hfault⟩ := build_wrapped h
  refine ⟨hmodel, hfault, scan_wrapped h, containingTypes_wrapped h, ?_⟩
  rw [(generate_gives s _).resultOf_eq trivial, (generate_gives s _).resultOf_eq trivial,
    generated_wrapped h s]

namespace Sample

open Marker (node identifier)

/-- A directive that imports the namespace of the marker class. -/
def markerImport : Node :=
  node .usingDirective 6 28 none [identifier 12 27 none]

/-- A field with the marker. -/
def printable : Node :=
  node .fieldDeclaration 74 92 none [
    node .attributeList 74 85 none [
      node .attributeUse 75 84 none [identifier 75 84 (some .name)]],
    node .variableDeclaration 86 91 none [
      node (.other "predefined_type") 86 89 (some .type) [],
      node .variableDeclarator 90 91 none [identifier 90 91 (some .name)]]]

/-- A stub. -/
def printAll : Node :=
  node .methodDeclaration 106 136 none [
    node .modifier 106 113 none [],
    node (.other "predefined_type") 114 118 (some .returns) [],
    identifier 119 133 (some .name),
    node .parameterList 133 135 (some .parameters) []]

/-- A class with the given members. -/
def classOf (members : List Node) : Node :=
  node (.typeDeclaration .classType) 50 138 none [
    node .modifier 50 57 none [],
    identifier 64 65 (some .name),
    node .declarationList 66 138 (some (.other "body")) members]

/-- A namespace with the given members. -/
def namespaceOf (members : List Node) : Node :=
  node .namespaceDeclaration 36 140 none [
    identifier 46 47 (some .name),
    node .declarationList 48 140 (some (.other "body")) members]

/-- A source with a directive and a class, parts of which are compiled under conditions. -/
def conditional (hasError : Bool) (nodes : List Node) : SourceTree :=
  ⟨.source 0, "conditional.cs", "#if A\nusing PrintableFields;\n#endif\n".toList ++
    "namespace N \x7b partial class C \x7b\n#if B\n[Printable] int x;\n#else\n#endif\n".toList ++
    "partial void PrintAllFields(); \x7d \x7d".toList, hasError,
    node (.other "compilation_unit") 0 140 none nodes⟩

/-- The source without the nodes of the conditions. -/
def unwrapped : SourceTree :=
  conditional false [markerImport, namespaceOf [classOf [printable, printAll]]]

/-- The source with wrappers: directive and field under conditions, the class in an error. -/
def wrapped : SourceTree :=
  conditional true [
    node (.wrapper .preprocIf) 0 35 none [identifier 4 5 none, markerImport],
    namespaceOf [node (.wrapper .error) 50 138 none [
      classOf [
        node (.wrapper .preprocIf) 68 105 none [
          identifier 72 73 none,
          printable,
          node (.wrapper .preprocElse) 93 98 none []],
        printAll]]]]

theorem unwrapped_wrapped : Wrapped unwrapped wrapped := by
  have hfield : ∀ member ∈ [printable], member.kind ≠ .fileScopedNamespace := by decide
  have husing : ∀ member ∈ [markerImport], member.kind ≠ .fileScopedNamespace := by decide
  have houter : ∀ member ∈ [classOf [printable, printAll]],
      member.kind ≠ .fileScopedNamespace := by decide
  have hclass : Wraps .members [classOf [printable, printAll]] [classOf [
      node (.wrapper .preprocIf) 68 105 none [
        identifier 72 73 none,
        printable,
        node (.wrapper .preprocElse) 93 98 none []],
      printAll]] := by
    refine .node nofun (.node nofun .nil (.node nofun .nil (.node nofun ?_ .nil))) .nil
    refine Wraps.wrap hfield ?_ (Wraps.refl _ [printAll])
    refine .add (by decide) (.node nofun (Wraps.refl _ _) (.add (by decide) .nil))
  refine ⟨rfl, .node nofun ?_ .nil⟩
  refine Wraps.wrap husing (.add (by decide) (Wraps.refl _ [markerImport])) ?_
  refine .node nofun (.node nofun .nil (.node nofun ?_ .nil)) .nil
  exact Wraps.wrap houter hclass .nil

end Sample

theorem wrapping_members_of_sample :
    Wrapped Sample.unwrapped Sample.wrapped ∧
      (Sample.unwrapped.root.preorder.length, Sample.wrapped.root.preorder.length) = (23, 29) ∧
      ((generated .default [Sample.wrapped]).toOption.map Generated.keys) =
        some [Marker.metadataName, "C.Printables", "C.PrintAllFields"] ∧
      resultOf (generate .default [Sample.wrapped] []) =
        resultOf (generate .default [Sample.unwrapped] []) := by
  have hall := wrapping_members_changes_nothing .default
    (.cons Sample.unwrapped_wrapped .nil : List.Forall₂ Wrapped [Sample.unwrapped] [Sample.wrapped])
    []
  refine ⟨Sample.unwrapped_wrapped, by decide +kernel, ?_, hall.2.2.2.2⟩
  rw [generated, Resolver.found, Resolver.compiled, Marker.tree_parts]
  decide +kernel

end PrintGen
