import PrintGen.Proofs.MarkedFields
import Mathlib.Data.List.Nodup

/-!
# Source order

The worklist empties itself after as many steps as the tree has nodes, and it meets every node once,
in the order in which recursion on the tree lists them. So the scan and the search for errors are
filters of that list. In a tree whose nodes lie one after the other inside of their parents the list
goes by the beginnings of the nodes, and the first error is the earliest.
-/

namespace PrintGen

open Syntax Symbols

namespace Syntax

/-! ## The worklist comes to an end -/

namespace Occurrence

/-- What is left on the worklist after a number of steps. -/
def pending : Nat → List Occurrence → List Occurrence
  | 0, work => work
  | _ + 1, [] => []
  | n + 1, o :: rest => pending n (o.children ++ rest)

theorem children_node (o : Occurrence) : o.children.map Occurrence.node = o.node.children := by
  rw [children, List.map_map]
  exact List.map_id _

/-- The worklist is empty after as many steps as there are nodes, and not before. -/
theorem pending_eq_nil_iff (n : Nat) (work : List Occurrence) :
    pending n work = [] ↔ Node.sizes (work.map Occurrence.node) ≤ n := by
  induction n generalizing work with
  | zero =>
    cases work with
    | nil => simp [pending, Node.sizes]
    | cons o rest => simp [pending, Node.sizes, Node.size_eq]
  | succ n ih =>
    cases work with
    | nil => simp [pending, Node.sizes]
    | cons o rest =>
      rw [pending, ih, List.map_append, children_node, Node.sizes_append, List.map_cons, Node.sizes,
        Node.size_eq]
      omega

end Occurrence

/-! ## Every node once -/

/-- The way from the root to a place: which child is taken at each node. -/
def Place.address (p : Place) : List Nat :=
  (p.around.map Prod.snd).reverse

namespace Node

theorem placesIn_flatMap (around : List (Node × Nat)) (node : Node) :
    node.placesIn around = ⟨node, around⟩ ::
      node.children.zipIdx.flatMap fun child => child.1.placesIn ((node, child.2) :: around) := by
  rw [placesIn_eq, ← Place.childrenFrom_placesIn ⟨node, around⟩, Place.childrenFrom,
    List.flatMap_map]

theorem address_of_mem {node : Node} : ∀ {around : List (Node × Nat)} {p : Place},
    p ∈ node.placesIn around → Place.address ⟨node, around⟩ <+: p.address := by
  induction node using children_induction with
  | step node ih =>
    intro around p hp
    rw [placesIn_flatMap] at hp
    rcases List.mem_cons.mp hp with rfl | hp
    · exact List.prefix_refl _
    · obtain ⟨⟨child, j⟩, hchild, hp⟩ := List.mem_flatMap.mp hp
      have hbelow := ih child (List.fst_mem_of_mem_zipIdx hchild) hp
      rw [Place.address, List.map_cons, List.reverse_cons] at hbelow
      exact (List.prefix_append _ _).trans hbelow

/-- The places of a tree have different addresses. -/
theorem addresses_nodup {node : Node} : ∀ around : List (Node × Nat),
    ((node.placesIn around).map Place.address).Nodup := by
  induction node using children_induction with
  | step node ih =>
    intro around
    have hbelow : ∀ {child : Node × Nat} {address : List Nat},
        address ∈ (child.1.placesIn ((node, child.2) :: around)).map Place.address →
        Place.address ⟨node, around⟩ ++ [child.2] <+: address := by
      intro child address haddress
      obtain ⟨p, hp, rfl⟩ := List.mem_map.mp haddress
      have hbase := address_of_mem hp
      rwa [Place.address, List.map_cons, List.reverse_cons] at hbase
    rw [placesIn_flatMap, List.map_cons, List.map_flatMap, List.nodup_cons, List.nodup_flatMap]
    refine ⟨?_, ?_, ?_⟩
    · intro hmem
      obtain ⟨child, -, haddress⟩ := List.mem_flatMap.mp hmem
      have hlength := (hbelow haddress).length_le
      rw [List.length_append, List.length_singleton] at hlength
      omega
    · intro child hchild
      exact ih _ (List.fst_mem_of_mem_zipIdx hchild) _
    · have hpositions : node.children.zipIdx.Pairwise fun a b => a.2 ≠ b.2 := by
        refine List.pairwise_map.mp ?_
        change (node.children.zipIdx.map Prod.snd).Nodup
        rw [List.zipIdx_map_snd]
        exact List.nodup_range'
      refine hpositions.imp fun {a b} hab => List.disjoint_left.mpr fun address ha hb => hab ?_
      have hsame : Place.address ⟨node, around⟩ ++ [a.2] = Place.address ⟨node, around⟩ ++ [b.2] :=
        (List.prefix_of_prefix_length_le (hbelow ha) (hbelow hb) (by simp)).eq_of_length (by simp)
      simpa using hsame

end Node

/-- A traversal of a tree: the worklist is empty after one step for each node, further steps find
nothing more, and the visited nodes are the places of the tree, each once and in the order of
recursion. -/
structure SourceTree.Traversed (tree : SourceTree) : Prop where
  ends : ∀ n, Occurrence.pending n [⟨none, tree.root⟩] = [] ↔ tree.root.size ≤ n
  complete : ∀ n, tree.root.size ≤ n →
    Occurrence.visit n [⟨none, tree.root⟩] = tree.occurrences
  nodes : tree.occurrences.map Occurrence.node = tree.root.preorder
  places : tree.occurrences = tree.root.places.map Place.occurrence
  once : (tree.root.places.map Place.address).Nodup

theorem SourceTree.traversed (tree : SourceTree) : tree.Traversed where
  ends n := by
    rw [Occurrence.pending_eq_nil_iff]
    simp [Node.sizes]
  complete n hn := by
    have hvisit := Occurrence.visit_places n [⟨tree.root, []⟩] (by simpa [Node.sizes] using hn)
    rw [List.flatMap_singleton] at hvisit
    exact hvisit.trans (Node.occurrences_eq_places tree.root).symm
  nodes := Node.occurrences_node tree.root
  places := Node.occurrences_eq_places tree.root
  once := Node.addresses_nodup []

/-! ## Nodes one after the other -/

namespace Node

/-- The children of a node lie inside of it, each after the one before. -/
structure Orderly (node : Node) : Prop where
  inside : ∀ child ∈ node.children,
    node.start ≤ child.start ∧ child.start ≤ child.stop ∧ child.stop ≤ node.stop
  apart : node.children.Pairwise fun a b => a.stop ≤ b.start

instance (node : Node) : Decidable node.Orderly :=
  decidable_of_iff
    ((∀ child ∈ node.children,
        node.start ≤ child.start ∧ child.start ≤ child.stop ∧ child.stop ≤ node.stop) ∧
      node.children.Pairwise fun a b => a.stop ≤ b.start)
    ⟨fun h => ⟨h.1, h.2⟩, fun h => ⟨h.inside, h.apart⟩⟩

/-- All nodes of a tree lie in order. -/
def InOrder (root : Node) : Prop :=
  ∀ node ∈ root.preorder, node.Orderly

instance (root : Node) : Decidable root.InOrder :=
  inferInstanceAs (Decidable (∀ node ∈ root.preorder, node.Orderly))

theorem InOrder.child {node child : Node} (h : node.InOrder) (hc : child ∈ node.children) :
    child.InOrder :=
  fun n hn => h n ((preorder_child hc).subset hn)

theorem preorders_eq_flatMap (nodes : List Node) : preorders nodes = nodes.flatMap preorder := by
  induction nodes with
  | nil => rw [preorders, List.flatMap_nil]
  | cons node rest ih => rw [preorders, List.flatMap_cons, ih]

/-- A tree in order covers its nodes. -/
theorem InOrder.bounds {node : Node} (h : node.InOrder) (hs : node.start ≤ node.stop) :
    ∀ inner ∈ node.preorder,
      node.start ≤ inner.start ∧ inner.start ≤ inner.stop ∧ inner.stop ≤ node.stop := by
  induction node using children_induction with
  | step node ih =>
    intro inner hinner
    rw [preorder_eq, preorders_eq_flatMap] at hinner
    rcases List.mem_cons.mp hinner with rfl | hinner
    · exact ⟨Nat.le_refl _, hs, Nat.le_refl _⟩
    · obtain ⟨child, hchild, hinner⟩ := List.mem_flatMap.mp hinner
      obtain ⟨hstart, hspan, hstop⟩ := (h node (mem_preorder_self node)).inside child hchild
      have hbelow := ih child hchild (h.child hchild) hspan inner hinner
      omega

/-- The nodes of a tree in order begin one after the other. -/
theorem InOrder.sorted {node : Node} (h : node.InOrder) :
    node.preorder.Pairwise fun a b => a.start ≤ b.start := by
  induction node using children_induction with
  | step node ih =>
    obtain ⟨hinside, hapart⟩ := h node (mem_preorder_self node)
    have hbounds : ∀ child ∈ node.children, ∀ inner ∈ child.preorder,
        child.start ≤ inner.start ∧ inner.start ≤ inner.stop ∧ inner.stop ≤ child.stop :=
      fun child hc => (h.child hc).bounds (hinside child hc).2.1
    rw [preorder_eq, preorders_eq_flatMap, List.pairwise_cons, List.pairwise_flatMap]
    refine ⟨fun inner hinner => ?_, fun child hc => ?_, ?_⟩
    · obtain ⟨child, hc, hinner⟩ := List.mem_flatMap.mp hinner
      exact (hinside child hc).1.trans (hbounds child hc inner hinner).1
    · exact ih child hc (h.child hc)
    · refine hapart.imp_of_mem fun {a b} ha hb hab x hx y hy => ?_
      have hfirst := hbounds a ha x hx
      have hsecond := hbounds b hb y hy
      omega

end Node

end Syntax

/-! ## Lines -/

namespace Text

theorem line_le_locateFrom (place : Location) (cs : List Char) (n : Nat) :
    place.line ≤ (locateFrom place cs n).line := by
  induction cs generalizing place n with
  | nil => cases n <;> simp [locateFrom]
  | cons c cs ih =>
    cases n with
    | zero => simp [locateFrom]
    | succ n =>
      rw [locateFrom]
      split
      · exact (Nat.le_succ _).trans (ih ⟨place.line + 1, 1⟩ n)
      · split
        · exact ih ⟨place.line, place.column + c.utf8Size⟩ _
        · exact Nat.le_refl _

/-- A later offset lies on no earlier line. -/
theorem locateFrom_line_mono (place : Location) (cs : List Char) {m n : Nat} (h : m ≤ n) :
    (locateFrom place cs m).line ≤ (locateFrom place cs n).line := by
  induction cs generalizing place m n with
  | nil => cases m <;> cases n <;> simp [locateFrom]
  | cons c cs ih =>
    cases m with
    | zero =>
      rw [locateFrom]
      exact line_le_locateFrom place (c :: cs) n
    | succ m =>
      obtain ⟨n, rfl⟩ := Nat.exists_eq_add_one.mpr (Nat.lt_of_lt_of_le m.succ_pos h)
      rw [locateFrom, locateFrom]
      by_cases hc : c = '\n'
      · rw [if_pos hc, if_pos hc]
        exact ih _ (Nat.le_of_succ_le_succ h)
      · rw [if_neg hc, if_neg hc]
        by_cases hm : c.utf8Size ≤ m + 1
        · rw [if_pos hm, if_pos (hm.trans h)]
          exact ih _ (Nat.sub_le_sub_right h _)
        · rw [if_neg hm]
          split
          · exact line_le_locateFrom ⟨place.line, place.column + c.utf8Size⟩ cs _
          · exact Nat.le_refl _

end Text

namespace Syntax

theorem SourceTree.line_mono (tree : SourceTree) {a b : Node} (h : a.start ≤ b.start) :
    (tree.locationOf a).line ≤ (tree.locationOf b).line :=
  Text.locateFrom_line_mono _ _ h

/-! ## Errors -/

namespace SourceTree

variable {tree : SourceTree}

/-- Whether a node stands for something that does not follow the grammar. -/
def isFlaw (node : Node) : Bool :=
  node.kind = .wrapper .error || node.missing

theorem errors_eq_filter : tree.errors = tree.root.preorder.filter isFlaw := by
  rw [errors, occurrences, Node.occurrences_node]
  rfl

theorem errors_sorted (h : tree.root.InOrder) :
    tree.errors.Pairwise fun a b => a.start ≤ b.start := by
  rw [errors_eq_filter]
  exact h.sorted.filter _

theorem firstErrorLine?_cons {first : Node} {rest : List Node}
    (h : tree.errors = first :: rest) :
    tree.firstErrorLine? = some (tree.locationOf first).line := by
  rw [firstErrorLine?, h]
  rfl

/-- The text of the first error can be read, or the bytes of its node are no text. -/
theorem errorSnippet_cases : (∃ snippet, tree.errorSnippet = .ok snippet) ∨
    tree.errorSnippet = .error .brokenText := by
  rw [errorSnippet]
  cases tree.errors.head? with
  | none => exact .inl ⟨_, rfl⟩
  | some first =>
    rw [textOf?, text]
    cases Text.slice? tree.content first.start first.stop with
    | none => exact .inr rfl
    | some cs => exact .inl ⟨_, rfl⟩

theorem accept_of_snippet (herror : tree.hasError = true) {snippet : String}
    (hsnippet : tree.errorSnippet = .ok snippet) (log : Trace) :
    tree.accept true log =
      .error (.syntaxErrors tree.path tree.firstErrorLine? snippet) log := by
  rw [accept, if_pos herror, hsnippet]
  rfl

/-- A syntax error that a strict pass stops with names the line of the first error. -/
theorem line_of_accept {path : String} {line : Option Nat} {snippet : String} {log log' : Trace}
    (h : tree.accept true log = .error (.syntaxErrors path line snippet) log') :
    line = tree.firstErrorLine? := by
  by_cases herror : tree.hasError = true
  · rcases tree.errorSnippet_cases with ⟨shown, hsnippet⟩ | hbroken
    · rw [accept_of_snippet herror hsnippet] at h
      cases h
      rfl
    · rw [accept, if_pos herror, hbroken] at h
      cases h
  · rw [accept, if_neg herror] at h
    cases h

/-- What is reported about the errors of a source, if its nodes lie in order: they come one after
the other, a strict pass stops at a source with an error whose text can be read, and the line that
it names, if any, is that of an error that no other precedes. -/
structure ReportsEarliest (tree : SourceTree) : Prop where
  sorted : tree.errors.Pairwise fun a b => a.start ≤ b.start
  stops : ∀ first rest text log, tree.hasError = true → tree.errors = first :: rest →
    tree.text first = .ok text →
    tree.accept true log = .error (.syntaxErrors tree.path (some (tree.locationOf first).line)
      (String.ofList (text.toList.take 50))) log
  earliest : ∀ path line snippet log log',
    tree.accept true log = .error (.syntaxErrors path (some line) snippet) log' →
    ∃ first ∈ tree.errors, line = (tree.locationOf first).line ∧
      ∀ other ∈ tree.errors, first.start ≤ other.start ∧ line ≤ (tree.locationOf other).line

theorem reportsEarliest (h : tree.root.InOrder) : tree.ReportsEarliest where
  sorted := errors_sorted h
  stops first rest text log herror hfirst htext := by
    have hsnippet : tree.errorSnippet = .ok (String.ofList (text.toList.take 50)) := by
      rw [errorSnippet, hfirst, List.head?_cons, textOf?, htext]
      rfl
    rw [accept_of_snippet herror hsnippet, firstErrorLine?_cons hfirst]
  earliest path line snippet log log' hstop := by
    have hline := line_of_accept hstop
    have hsorted := errors_sorted h
    cases herrors : tree.errors with
    | nil =>
      rw [firstErrorLine?, herrors] at hline
      cases hline
    | cons first rest =>
      rw [firstErrorLine?_cons herrors] at hline
      obtain rfl := Option.some.inj hline
      rw [herrors, List.pairwise_cons] at hsorted
      have hfirst : ∀ other ∈ first :: rest, first.start ≤ other.start :=
        List.forall_mem_cons.mpr ⟨Nat.le_refl _, hsorted.1⟩
      exact ⟨first, List.mem_cons_self, rfl,
        fun other hother => ⟨hfirst other hother, tree.line_mono (hfirst other hother)⟩⟩

end SourceTree

end Syntax

/-! ## The scan -/

/-- Where a candidate stands. -/
def Syntax.Candidate.site (c : Candidate) : Site :=
  ⟨c.tree, c.node⟩

/-- The stub test at a site. -/
def stubTest (stubName : Option String) (s : Site) : Except Fault Bool :=
  s.tree.isStub stubName s.node

/-- A scan returns exactly if the stub test answers everywhere, and then its lists are the filters
of all nodes by the two tests. -/
structure Filters (trees : List SourceTree) (stubName : Option String) : Prop where
  returns : (∃ candidates, scan trees stubName = .ok candidates) ↔
    ∀ s ∈ allSites trees, ∃ answer, stubTest stubName s = .ok answer
  readable : (∀ tree ∈ trees, tree.WellFormed) → ∃ candidates, scan trees stubName = .ok candidates
  fields : ∀ candidates, scan trees stubName = .ok candidates →
    candidates.fields.map Candidate.site =
      (allSites trees).filter fun s => s.node.isAnnotatedField
  stubs : ∀ candidates, scan trees stubName = .ok candidates →
    candidates.stubs.map Candidate.site =
      (allSites trees).filter fun s => (stubTest stubName s).toOption = some true

theorem allPlaces_sites (trees : List SourceTree) :
    (allPlaces trees).map (fun q => Site.mk q.1 q.2.node) = allSites trees := by
  rw [allPlaces, allSites, List.map_flatMap]
  refine List.flatMap_congr fun tree _ => ?_
  rw [List.map_map, ← Node.placesIn_node [] tree.root, List.map_map]
  rfl

theorem scan_filters (trees : List SourceTree) (stubName : Option String) :
    Filters trees stubName := by
  have hsites : (∀ q ∈ allPlaces trees, ∃ b, q.1.isStub stubName q.2.node = .ok b) ↔
      ∀ s ∈ allSites trees, ∃ answer, stubTest stubName s = .ok answer := by
    rw [← allPlaces_sites, List.forall_mem_map]
    rfl
  refine ⟨⟨?_, fun hall => ?_⟩, fun hw => ?_, fun candidates h => scan_sites h,
    fun candidates h => ?_⟩
  · rintro ⟨candidates, h⟩
    exact hsites.mp (scan_ok_iff.mp h).1
  · exact ⟨_, scan_ok_iff.mpr ⟨hsites.mpr hall, rfl⟩⟩
  · exact ⟨_, scan_ok_iff.mpr ⟨fun q hq => (legible_of_mem hw hq).isStub stubName, rfl⟩⟩
  · rw [(scan_ok_iff.mp h).2, ← allPlaces_sites, List.filter_map, List.map_map]
    rfl

/-- **Traversals go by source order.** For every list of trees the worklist comes to an end and
meets each node once; the scan filters the nodes of all trees, tree after tree; and the errors of a
source are those among its nodes, sorted by their beginnings if the nodes lie in order. -/
theorem traversals_in_source_order (trees : List SourceTree) (stubName : Option String) :
    (∀ tree ∈ trees, tree.Traversed) ∧ Filters trees stubName ∧
      ∀ tree : SourceTree, tree.errors = tree.root.preorder.filter SourceTree.isFlaw ∧
        (tree.root.InOrder → tree.ReportsEarliest) :=
  ⟨fun tree _ => tree.traversed, scan_filters trees stubName,
    fun _ => ⟨SourceTree.errors_eq_filter, SourceTree.reportsEarliest⟩⟩

namespace Sample

/-- Three lines, the first two with an error; the first error stands inside of a declaration. -/
def flawed : SourceTree :=
  ⟨.source 0, "flawed.cs", "x\ny\nz\n".toList, true,
    .mk (.other "compilation_unit") true false 0 6 none
      [.mk (.typeDeclaration .classType) true false 0 1 none
        [.mk (.wrapper .error) true false 0 1 none []],
        .mk (.other ";") false true 2 2 none []]⟩

/-- Three lines with a declaration over all of them. An error on the last line stands inside of it,
an error on the second line beside it. -/
def overlapping : SourceTree :=
  ⟨.source 0, "overlap.cs", "x\ny\nz\n".toList, true,
    .mk (.other "compilation_unit") true false 0 6 none
      [.mk (.typeDeclaration .classType) true false 0 6 none
        [.mk (.wrapper .error) true false 4 5 none []],
        .mk (.wrapper .error) true false 2 3 none []]⟩

/-- A method with a modifier that ends inside of a character. -/
def splitModifier : SourceTree :=
  ⟨.source 0, "split.cs", "é void".toList, true,
    .mk (.other "compilation_unit") true false 0 7 none
      [.mk .methodDeclaration true false 0 7 none [.mk .modifier true false 0 1 none []]]⟩

end Sample

theorem source_order_of_flawed : Sample.flawed.root.InOrder ∧
    Sample.flawed.errors.map Node.start = [0, 2] ∧
    Sample.flawed.accept true [] = .error (.syntaxErrors "flawed.cs" (some 1) "x") [] ∧
    (∀ other ∈ Sample.flawed.errors, 1 ≤ (Sample.flawed.locationOf other).line) ∧
    ∃ candidates, scan [Sample.flawed] none = .ok candidates := by
  have horder : Sample.flawed.root.InOrder := by decide
  have hwell : ∀ tree ∈ [Sample.flawed], tree.WellFormed := by decide +kernel
  obtain ⟨-, hscan, herrors⟩ := traversals_in_source_order [Sample.flawed] none
  have hreports := (herrors Sample.flawed).2 horder
  have hstop := hreports.stops _ _ "x" [] rfl rfl rfl
  obtain ⟨first, -, -, hearliest⟩ := hreports.earliest _ _ _ _ _ hstop
  exact ⟨horder, by decide, hstop, fun other hother => (hearliest other hother).2,
    hscan.readable hwell⟩

/-- Children that begin one after the other and lie inside of their parents are not enough: where
they overlap, the errors are out of order and a strict pass names the line of a later one. And
where the bytes of a modifier are no text, the scan returns nothing. -/
theorem overlapping_errors_out_of_order :
    (∀ node ∈ Sample.overlapping.root.preorder,
      (∀ child ∈ node.children,
        node.start ≤ child.start ∧ child.start ≤ child.stop ∧ child.stop ≤ node.stop) ∧
      node.children.Pairwise fun a b => a.start ≤ b.start) ∧
    Sample.overlapping.errors.map Node.start = [4, 2] ∧
    Sample.overlapping.accept true [] = .error (.syntaxErrors "overlap.cs" (some 3) "z") [] ∧
    Sample.overlapping.errors.map (fun node => (Sample.overlapping.locationOf node).line) =
      [3, 2] ∧
    (scan [Sample.splitModifier] (some "PrintAllFields")).toOption.isNone = true := by
  refine ⟨by decide, by decide, rfl, by decide, by decide +kernel⟩

end PrintGen
