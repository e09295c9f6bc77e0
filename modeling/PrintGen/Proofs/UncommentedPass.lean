import PrintGen.Proofs.UncommentedTables
import PrintGen.Proofs.ViewedPass

/-!
# A pass over trees without comments

The scan visits comments as well, but a comment is no candidate and has nothing below it. So the
candidates are the same without comments, and so is all that is made of them. A comment in front of
a base class is another matter: it hides the base class.
-/

namespace PrintGen

open Syntax Symbols

/-! ## The scan -/

namespace Syntax

/-- A visited node without comments. -/
def Occurrence.uncommented (o : Occurrence) : Occurrence :=
  ⟨o.owner.map Node.uncommented, o.node.uncommented⟩

/-- A candidate without comments. -/
def Candidate.uncommented (c : Candidate) : Candidate :=
  ⟨c.tree.uncommented, c.owner.map Node.uncommented, c.node.uncommented⟩

/-- Candidates without comments. -/
def Candidates.uncommented (c : Candidates) : Candidates :=
  ⟨c.fields.map Candidate.uncommented, c.stubs.map Candidate.uncommented⟩

namespace Node

theorem ownerBelow_uncommented (owner : Option Node) (node : Node) :
    ownerBelow (owner.map uncommented) node.uncommented =
      (ownerBelow owner node).map uncommented := by
  rw [ownerBelow, uncommented_kind, ownerBelow]
  cases node.kind.isTypeDeclaration <;> rfl

mutual

/-- Below a node, all nodes are visited in the same order without comments. -/
theorem visits_below (owner : Option Node) : ∀ node : Node, node.AllAside →
    visitsAmong (owner.map uncommented) node.uncommented.children =
      ((visitsAmong owner node.children).filter fun o => !o.node.isComment).map
        Occurrence.uncommented
  | .mk _ _ _ _ _ _ children, h =>
    visitsAmong_uncommented owner children (fun _ hc => h.child hc) fun child hc hcomment =>
      (h.self.bare child hc hcomment).2

theorem visitsAmong_uncommented (owner : Option Node) : ∀ nodes : List Node,
    (∀ node ∈ nodes, node.AllAside) → (∀ node ∈ nodes, node.isComment → node.children.isEmpty) →
    visitsAmong (owner.map uncommented) (uncommentedAll nodes) =
      ((visitsAmong owner nodes).filter fun o => !o.node.isComment).map Occurrence.uncommented
  | [], _, _ => rfl
  | node :: rest, h, hleaf => by
    obtain ⟨hnode, hrest⟩ := List.forall_mem_cons.mp h
    obtain ⟨hnodeleaf, hrestleaf⟩ := List.forall_mem_cons.mp hleaf
    have ih := visitsAmong_uncommented owner rest hrest hrestleaf
    rw [uncommentedAll, visitsAmong, visitsIn_eq, List.cons_append]
    cases hc : node.isComment with
    | true =>
      -- There is nothing below a comment.
      rw [if_pos rfl, ih, List.isEmpty_iff.mp (hnodeleaf hc), visitsAmong,
        List.filter_cons_of_neg (by simp [hc]), List.nil_append]
    | false =>
      rw [if_neg (by decide), visitsAmong, visitsIn_eq, ih, ownerBelow_uncommented,
        visits_below _ node hnode, List.filter_cons_of_pos (by simp [hc]), List.filter_append,
        List.map_cons, List.map_append]
      rfl

end

/-- A tree is visited like the tree without comments, the comments below its root apart. -/
theorem occurrences_uncommented {root : Node} (h : root.AllAside) :
    ∃ below, root.occurrences = ⟨none, root⟩ :: below ∧
      root.uncommented.occurrences = Occurrence.uncommented ⟨none, root⟩ ::
        (below.filter fun o => !o.node.isComment).map Occurrence.uncommented := by
  refine ⟨visitsAmong (ownerBelow none root) root.children, ?_, ?_⟩
  · rw [occurrences_eq_visits, visitsIn_eq]
  · rw [occurrences_eq_visits, visitsIn_eq, ← visits_below _ root h, ← ownerBelow_uncommented]
    rfl

end Node

section

variable {tree : SourceTree}

theorem readsMethod_uncommented {node : Node} (h : node.Bare) :
    View.uncommented.ReadsMethod tree node :=
  ⟨tree.uncommented_declaredName h, tree.uncommented_modifiers node, tree.uncommented_returnType h,
    h.parameterCount⟩

theorem isStub_uncommented (stubName : Option String) {node : Node} (h : node.Bare) :
    tree.uncommented.isStub stubName node.uncommented = tree.isStub stubName node :=
  View.uncommented.isStub stubName fun _ => readsMethod_uncommented h

theorem isAnnotatedField_uncommented (node : Node) :
    node.uncommented.isAnnotatedField = node.isAnnotatedField := by
  rw [Node.isAnnotatedField, Node.isAnnotatedField, Node.uncommented_kind,
    node.uncommented_hasChild (by decide)]

variable (h : tree.root.AllAside)

include h

theorem annotatedFields_uncommented :
    tree.uncommented.annotatedFields = tree.annotatedFields.map Candidate.uncommented := by
  obtain ⟨below, hall, hshown⟩ := Node.occurrences_uncommented h
  have hsame : ∀ o : Occurrence, o.uncommented.node.isAnnotatedField = o.node.isAnnotatedField :=
    fun o => isAnnotatedField_uncommented o.node
  have hbelow : ((below.filter fun o => !o.node.isComment).map Occurrence.uncommented).filter
        (fun o => o.node.isAnnotatedField) =
      (below.filter fun o => o.node.isAnnotatedField).map Occurrence.uncommented :=
    filter_shown hsame fun o _ ho => Node.other_of_kind (by decide) (isAnnotatedField_kind ho)
  have hfound : tree.uncommented.occurrences.filter (fun o => o.node.isAnnotatedField) =
      (tree.occurrences.filter fun o => o.node.isAnnotatedField).map Occurrence.uncommented := by
    rw [SourceTree.occurrences, SourceTree.occurrences, hall]
    change tree.root.uncommented.occurrences.filter _ = _
    rw [hshown, List.filter_cons, List.filter_cons, hsame, hbelow]
    split <;> rfl
  rw [SourceTree.annotatedFields, SourceTree.annotatedFields, hfound, List.map_map, List.map_map]
  rfl

theorem stubs_uncommented (stubName : Option String) :
    tree.uncommented.stubs stubName =
      (tree.stubs stubName).map (List.map Candidate.uncommented) := by
  obtain ⟨below, hall, hshown⟩ := Node.occurrences_uncommented h
  have hbare : ∀ o ∈ tree.root.occurrences, o.node.Bare := by
    intro o ho
    refine (h o.node ?_).bare
    rw [← Node.occurrences_node]
    exact List.mem_map_of_mem ho
  rw [hall] at hbare
  obtain ⟨hroot, hrest⟩ := List.forall_mem_cons.mp hbare
  have hbelow : ((below.filter fun o => !o.node.isComment).map Occurrence.uncommented).filterM
        (fun o => tree.uncommented.isStub stubName o.node) =
      (below.filterM fun o => tree.isStub stubName o.node).map
        (List.map Occurrence.uncommented) := by
    refine filterM_shown (fun o ho => isStub_uncommented stubName (hrest o ho)) fun o _ hc => ?_
    have hcomment : o.node.isComment = true := by simpa using hc
    have hk : o.node.kind ≠ .methodDeclaration := by
      rw [of_decide_eq_true hcomment]
      decide
    rw [SourceTree.isStub, if_neg hk]
    rfl
  have hfound : tree.uncommented.occurrences.filterM
        (fun o => tree.uncommented.isStub stubName o.node) =
      (tree.occurrences.filterM fun o => tree.isStub stubName o.node).map
        (List.map Occurrence.uncommented) := by
    rw [SourceTree.occurrences, SourceTree.occurrences, hall]
    change tree.root.uncommented.occurrences.filterM _ = _
    rw [hshown, filterM_cons, filterM_cons, hbelow]
    change (tree.uncommented.isStub stubName tree.root.uncommented >>= _) = _
    rw [isStub_uncommented stubName hroot]
    cases tree.isStub stubName tree.root with
    | error fault => rfl
    | ok b => cases below.filterM fun o => tree.isStub stubName o.node <;> cases b <;> rfl
  rw [SourceTree.stubs, SourceTree.stubs, hfound]
  cases tree.occurrences.filterM fun o => tree.isStub stubName o.node with
  | error fault => rfl
  | ok found =>
    refine congrArg Except.ok ?_
    rw [List.map_map, List.map_map]
    rfl

end

theorem scan_uncommented {trees : List SourceTree} (h : ∀ tree ∈ trees, tree.root.AllAside)
    (stubName : Option String) :
    scan (trees.map SourceTree.uncommented) stubName =
      (scan trees stubName).map Candidates.uncommented := by
  have hfields : (trees.map SourceTree.uncommented).flatMap SourceTree.annotatedFields =
      (trees.flatMap SourceTree.annotatedFields).map Candidate.uncommented := by
    rw [List.flatMap_map, List.map_flatMap]
    exact List.flatMap_congr fun tree ht => annotatedFields_uncommented (h tree ht)
  have hstubs : (trees.map SourceTree.uncommented).mapM (fun tree => tree.stubs stubName) =
      (trees.mapM fun tree : SourceTree => tree.stubs stubName).map
        (List.map (List.map Candidate.uncommented)) := by
    rw [List.mapM_map, ← mapM_view]
    exact mapM_congr_mem fun tree ht => stubs_uncommented (h tree ht) stubName
  rw [scan, hfields, hstubs, scan]
  cases trees.mapM fun tree => tree.stubs stubName with
  | error fault => rfl
  | ok stubs =>
    simp only [Except.map, except_ok_bind]
    exact congrArg (fun found => Except.ok (Candidates.mk _ found)) List.map_flatten.symm

end Syntax

/-! ## The pass -/

theorem Marker.root_aside : Marker.tree.root.AllAside := by
  decide +kernel

theorem Marker.tree_uncommented : Marker.tree.uncommented = Marker.tree := by
  have hroot : Marker.tree.root.uncommented = Marker.tree.root := rfl
  rw [SourceTree.uncommented, hroot]

theorem Resolver.found_uncommented {trees : List SourceTree}
    (h : ∀ tree ∈ trees, tree.root.AllAside) :
    found (trees.map SourceTree.uncommented) = (found trees).map View.uncommented.resolver := by
  have hall : ∀ tree ∈ trees ++ [Marker.tree], tree.root.AllAside := by
    rw [List.forall_mem_append, List.forall_mem_singleton]
    exact ⟨h, Marker.root_aside⟩
  have htrees : trees.map SourceTree.uncommented ++ [Marker.tree] =
      (trees ++ [Marker.tree]).map SourceTree.uncommented := by
    rw [List.map_append, List.map_singleton, Marker.tree_uncommented]
  obtain ⟨hmodel, hfault⟩ := build_uncommented hall
  rw [found, found, compiled, compiled, htrees, hmodel, hfault]
  cases (build (trees ++ [Marker.tree])).fault <;> rfl

/-- **A pass comes to the same without comments.** -/
theorem generated_uncommented (s : Settings) {trees : List SourceTree}
    (h : ∀ tree ∈ trees, tree.root.AllAside) :
    generated s (trees.map SourceTree.uncommented) = generated s trees := by
  rw [generated_eq_outcome, scan_uncommented h, except_map_bind, generated_eq_outcome]
  refine except_bind_congr fun candidates hscan => ?_
  rw [Resolver.found_uncommented h, except_map_bind]
  refine except_bind_congr fun r _ => View.uncommented.outcome r s fun c hc => ?_
  obtain ⟨-, rfl⟩ := scan_ok_iff.mp hscan
  obtain ⟨q, hq, rfl⟩ := List.mem_map.mp hc
  obtain ⟨ht, hn⟩ := mem_allPlaces (List.mem_filter.mp hq).1
  exact readsMethod_uncommented (h q.1 ht _ hn).bare

/-- **Comments that stand aside are insignificant.** Without them there are the same candidates, the
same model, whose nodes have no comments, with the same bindings, and a pass comes to the same
fragments and diagnostics, or to the same fault. -/
theorem comments_aside_change_nothing (s : Settings) {trees : List SourceTree}
    (h : ∀ tree ∈ trees, tree.root.AllAside) (before : Trace) :
    (∀ stubName, scan (trees.map SourceTree.uncommented) stubName =
        (scan trees stubName).map Candidates.uncommented) ∧
      (build (trees.map SourceTree.uncommented)).model = (build trees).model.uncommented ∧
      (build (trees.map SourceTree.uncommented)).fault = (build trees).fault ∧
      resultOf (generate s (trees.map SourceTree.uncommented) before) =
        resultOf (generate s trees before) := by
  obtain ⟨hmodel, hfault⟩ := build_uncommented h
  refine ⟨scan_uncommented h, hmodel, hfault, ?_⟩
  rw [(generate_gives s _).resultOf_eq trivial, (generate_gives s _).resultOf_eq trivial,
    generated_uncommented s h]

namespace Sample

open Marker (node identifier)

/-- A class with comments in many places: before a name, between the entries of a base list, before
an attribute, among the type arguments of a field and in a parameter list. -/
def commented : SourceTree :=
  ⟨.source 0, "commented.cs", "// head\nusing /* for */ PrintableFields;\n".toList ++
    "partial class /* the */ A : B /* first */, /* then */ I \x7b ".toList ++
    "[/* mark */ Printable] /* of */ D<K, /* to */ V> x; ".toList ++
    "partial void PrintAllFields(/* none */); \x7d class B \x7b \x7d".toList, false,
    node (.other "compilation_unit") 0 205 none [
      node .comment 0 7 none [],
      node .usingDirective 8 40 none [
        node .comment 14 23 none [],
        identifier 24 39 none],
      node (.typeDeclaration .classType) 41 193 none [
        node .modifier 41 48 none [],
        node .comment 55 64 none [],
        identifier 65 66 (some .name),
        node .baseList 67 96 none [
          identifier 69 70 none,
          node .comment 71 82 none [],
          node .comment 84 94 none [],
          identifier 95 96 none],
        node .declarationList 97 193 (some (.other "body")) [
          node .fieldDeclaration 99 150 none [
            node .attributeList 99 121 none [
              node .comment 100 110 none [],
              node .attributeUse 111 120 none [identifier 111 120 (some .name)]],
            node .comment 122 130 none [],
            node .variableDeclaration 131 149 none [
              node (.name .generic) 131 147 (some .type) [
                identifier 131 132 none,
                node .typeArgumentList 132 147 none [
                  identifier 133 134 none,
                  node .comment 136 144 none [],
                  identifier 145 146 none]],
              node .variableDeclarator 148 149 none [identifier 148 149 (some .name)]]],
          node .methodDeclaration 151 191 none [
            node .modifier 151 158 none [],
            node (.other "predefined_type") 159 163 (some .returns) [],
            identifier 164 178 (some .name),
            node .parameterList 178 190 (some .parameters) [
              node .comment 179 189 none []]]]],
      node (.typeDeclaration .classType) 194 205 none [
        identifier 200 201 (some .name),
        node .declarationList 202 205 (some (.other "body")) []]]⟩

/-- A class with a comment in front of its base class. -/
def hidden : SourceTree :=
  ⟨.source 0, "hidden.cs",
    "class A : /* of the framework */ System.Attribute \x7b \x7d".toList, false,
    node (.other "compilation_unit") 0 53 none [
      node (.typeDeclaration .classType) 0 53 none [
        identifier 6 7 (some .name),
        node .baseList 8 49 none [
          node .comment 10 32 none [],
          node (.name .qualified) 33 49 none [
            identifier 33 39 (some .qualifier),
            identifier 40 49 (some .name)]],
        node .declarationList 50 53 (some (.other "body")) []]]⟩

end Sample

theorem comments_aside_of_sample :
    Sample.commented.root.AllAside ∧
      (Sample.commented.root.preorder.countP Node.isComment,
        Sample.commented.uncommented.root.preorder.countP Node.isComment) = (9, 0) ∧
      ((generated .default [Sample.commented]).toOption.map Generated.keys) =
        some [Marker.metadataName, "A.Printables", "A.PrintAllFields"] ∧
      resultOf (generate .default [Sample.commented.uncommented] []) =
        resultOf (generate .default [Sample.commented] []) := by
  have haside : Sample.commented.root.AllAside := by decide +kernel
  have hall := comments_aside_change_nothing .default (List.forall_mem_singleton.mpr haside) []
  refine ⟨haside, by decide +kernel, ?_, hall.2.2.2⟩
  rw [generated, Resolver.found, Resolver.compiled, Marker.tree_parts]
  decide +kernel

/-- **A comment in front of a base class hides it,** and with it that the class is an attribute
class. -/
theorem leading_comment_hides_base :
    (build [Sample.hidden]).model.bases = [] ∧
      (build [Sample.hidden.uncommented]).model.bases = [(.top .global ⟨"A", 0⟩, none)] ∧
      (build [Sample.hidden]).model.isAttributeClass (.top .global ⟨"A", 0⟩) = false ∧
      (build [Sample.hidden.uncommented]).model.isAttributeClass (.top .global ⟨"A", 0⟩) =
        true := by
  decide +kernel

end PrintGen
