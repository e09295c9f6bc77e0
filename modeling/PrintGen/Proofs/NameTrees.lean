import PrintGen.Proofs.Outcome
import PrintGen.Syntax.Name

/-!
# The tree form of a name

A name is a list of segments, and a grammar puts it into a tree of two-part names that may be
bracketed in any way, with an alias at the leftmost segment. The parts of a node stand under labels
or, in older trees, are plain children. Reading such a tree gives the name back, and every name in
every bracketing has a tree.
-/

namespace PrintGen

/-! ## Texts inside of a text -/

namespace Text

/-- The number of bytes of a text. -/
def byteCount : List Char → Nat
  | [] => 0
  | c :: cs => c.utf8Size + byteCount cs

theorem dropBytes_append (before rest : List Char) :
    dropBytes (before ++ rest) (byteCount before) = some rest := by
  induction before with
  | nil => simp [byteCount, dropBytes]
  | cons c cs ih =>
    obtain ⟨n, hn⟩ := Nat.exists_eq_add_one.mpr (Nat.add_pos_left c.utf8Size_pos (byteCount cs))
    rw [List.cons_append, byteCount, hn, dropBytes, ← hn, if_pos (Nat.le_add_right _ _),
      Nat.add_sub_cancel_left, ih]

theorem takeBytes_append (text rest : List Char) :
    takeBytes (text ++ rest) (byteCount text) = some text := by
  induction text with
  | nil => simp [byteCount, takeBytes]
  | cons c cs ih =>
    obtain ⟨n, hn⟩ := Nat.exists_eq_add_one.mpr (Nat.add_pos_left c.utf8Size_pos (byteCount cs))
    rw [List.cons_append, byteCount, hn, takeBytes, ← hn, if_pos (Nat.le_add_right _ _),
      Nat.add_sub_cancel_left, ih]
    rfl

/-- A part of a text is cut out by its byte range. -/
theorem slice?_append (before text after : List Char) :
    slice? (before ++ (text ++ after)) (byteCount before) (byteCount before + byteCount text) =
      some text := by
  rw [slice?]
  split
  · rename_i hle
    cases text with
    | nil => rfl
    | cons c cs =>
      have hpos := c.utf8Size_pos
      rw [byteCount] at hle
      omega
  · rw [dropBytes_append, Option.bind_some, Nat.add_sub_cancel_left, takeBytes_append]

end Text

namespace Syntax

open Text (byteCount slice?_append)

/-! ## Two parts among other children -/

/-- Two nodes stand in a list in this order, and all other nodes of the list satisfy the
condition. -/
def TwoAmong (others : Node → Prop) (left right : Node) (nodes : List Node) : Prop :=
  ∃ before between after, nodes = before ++ left :: (between ++ right :: after) ∧
    ∀ node ∈ before ++ (between ++ after), others node

section

variable {others : Node → Prop} {left right : Node} {nodes : List Node} {p : Node → Bool}

theorem TwoAmong.find?_left (h : TwoAmong others left right nodes) (hl : p left = true)
    (ho : ∀ node, others node → p node = false) : nodes.find? p = some left := by
  obtain ⟨before, between, after, rfl, hothers⟩ := h
  have hbefore : before.find? p = none := List.find?_eq_none.mpr fun node hn => by
    simp [ho node (hothers node (List.mem_append_left _ hn))]
  rw [List.find?_append, hbefore, Option.none_or, List.find?_cons_of_pos hl]

theorem TwoAmong.find?_right (h : TwoAmong others left right nodes) (hl : p left = false)
    (hr : p right = true) (ho : ∀ node, others node → p node = false) :
    nodes.find? p = some right := by
  obtain ⟨before, between, after, rfl, hothers⟩ := h
  have hnone : (before ++ left :: between).find? p = none := by
    refine List.find?_eq_none.mpr fun node hn => ?_
    rcases List.mem_append.mp hn with hb | hn
    · simp [ho node (hothers node (List.mem_append_left _ hb))]
    · rcases List.mem_cons.mp hn with rfl | hb
      · simp [hl]
      · simp [ho node (hothers node (List.mem_append_right _ (List.mem_append_left _ hb)))]
  rw [← List.cons_append, ← List.append_assoc, List.find?_append, hnone, Option.none_or,
    List.find?_cons_of_pos hr]

theorem TwoAmong.filter (h : TwoAmong others left right nodes) (hl : p left = true)
    (hr : p right = true) (ho : ∀ node, others node → p node = false) :
    nodes.filter p = [left, right] := by
  obtain ⟨before, between, after, rfl, hothers⟩ := h
  have hnone : ∀ part : List Node, part ⊆ before ++ (between ++ after) → part.filter p = [] :=
    fun part hpart => List.filter_eq_nil_iff.mpr fun node hn => by
      simp [ho node (hothers node (hpart hn))]
  rw [List.filter_append, List.filter_cons_of_pos hl, List.filter_append,
    List.filter_cons_of_pos hr, hnone before (List.subset_append_left _ _),
    hnone between fun _ hn => List.mem_append_right _ (List.mem_append_left _ hn),
    hnone after fun _ hn => List.mem_append_right _ (List.mem_append_right _ hn)]
  rfl

end

/-- The two parts of a name node stand under their labels, and nothing else does. -/
def Labelled (first : Label) (left right : Node) (nodes : List Node) : Prop :=
  TwoAmong (fun node => node.label ≠ some first ∧ node.label ≠ some .name) left right nodes ∧
    left.label = some first ∧ right.label = some .name

/-- One of the two labels is missing. -/
def Unlabelled (first : Label) (nodes : List Node) : Prop :=
  (∀ node ∈ nodes, node.label ≠ some first) ∨ ∀ node ∈ nodes, node.label ≠ some .name

/-- The two parts of a qualified name: labelled, or the only names among plain children. -/
def QualifiedParts (left right : Node) (nodes : List Node) : Prop :=
  Labelled .qualifier left right nodes ∨
    Unlabelled .qualifier nodes ∧ (left.named && left.kind.isName) = true ∧
      (right.named && right.kind.isName) = true ∧
      TwoAmong (fun node => (node.named && node.kind.isName) = false) left right nodes

/-- The two parts of a name with an alias: labelled, or the outer ones of plain children. -/
def AliasParts (left right : Node) (nodes : List Node) : Prop :=
  Labelled .aliasName left right nodes ∨
    Unlabelled .aliasName nodes ∧ ∃ between, nodes = left :: (between ++ [right])

theorem Labelled.find?_parts {first : Label} {left right : Node} {nodes : List Node}
    (h : Labelled first left right nodes) (hne : first ≠ .name) :
    (nodes.find? fun node => node.label = some first) = some left ∧
      (nodes.find? fun node => node.label = some .name) = some right := by
  obtain ⟨htwo, hl, hr⟩ := h
  have hleft : ¬left.label = some .name := by
    rw [hl]
    exact fun he => hne (Option.some.inj he)
  exact ⟨htwo.find?_left (by simpa using hl) fun node ho => by simpa using ho.1,
    htwo.find?_right (by simpa using hleft) (by simpa using hr) fun node ho => by simpa using ho.2⟩

theorem Unlabelled.find?_none {first : Label} {nodes : List Node} (h : Unlabelled first nodes) :
    (nodes.find? fun node => node.label = some first) = none ∨
      (nodes.find? fun node => node.label = some .name) = none := by
  refine h.imp ?_ ?_ <;> exact fun hnone => List.find?_eq_none.mpr (by simpa using hnone)

/-! ## Names in brackets -/

/-- A name with brackets: a segment, or two bracketed names with a dot between them. -/
inductive Bracketing where
  | segment (s : Segment)
  | dot (left right : Bracketing)

/-- The segments without the brackets. -/
def Bracketing.segments : Bracketing → List Segment
  | segment s => [s]
  | dot left right => left.segments ++ right.segments

/-- A node is the tree form of a name in brackets. Only the leftmost segment has the alias. -/
inductive SourceTree.WritesName (tree : SourceTree) : Option String → Bracketing → Node → Prop where
  | identifier {node : Node} {name : String} (kind : node.kind = .name .identifier)
      (text : tree.text node = .ok name) : WritesName tree none (.segment ⟨name, 0⟩) node
  | generic {node identifier arguments : Node} {name : String} {arity : Nat}
      (kind : node.kind = .name .generic)
      (identifierKind : identifier.kind = .name .identifier)
      (argumentsKind : arguments.kind = .typeArgumentList)
      (parts : TwoAmong (fun node => node.kind ≠ .name .identifier ∧ node.kind ≠ .typeArgumentList)
        identifier arguments node.children)
      (text : tree.text identifier = .ok name) (count : arguments.namedChildren.length = arity) :
      WritesName tree none (.segment ⟨name, arity⟩) node
  | aliased {node aliasNode nameNode : Node} {text : String} {s : Segment}
      (kind : node.kind = .name .aliasQualified)
      (parts : AliasParts aliasNode nameNode node.children)
      (aliasText : tree.text aliasNode = .ok text)
      (name : WritesName tree none (.segment s) nameNode) :
      WritesName tree (some text) (.segment s) node
  | qualified {node left right : Node} {aliasName : Option String} {l r : Bracketing}
      (kind : node.kind = .name .qualified) (parts : QualifiedParts left right node.children)
      (qualifier : WritesName tree aliasName l left) (name : WritesName tree none r right) :
      WritesName tree aliasName (.dot l r) node

/-! ## Reading the tree form -/

namespace SourceTree

variable {tree : SourceTree}

/-- A child with the name that it writes. -/
def namePart (tree : SourceTree) (node : Node) : NamePart :=
  ⟨node, tree.nameOf node⟩

theorem nameParts_eq_map (nodes : List Node) : tree.nameParts nodes = nodes.map tree.namePart := by
  induction nodes with
  | nil => rw [nameParts, List.map_nil]
  | cons node rest ih =>
    rw [nameParts, ih]
    rfl

theorem at?_nameParts (label : Label) (nodes : List Node) :
    NamePart.at? label (tree.nameParts nodes) =
      (nodes.find? fun node => node.label = some label).map tree.namePart := by
  rw [nameParts_eq_map, NamePart.at?, List.find?_map]
  rfl

theorem qualifierAndName_parts {left right : Node} {nodes : List Node}
    (h : QualifiedParts left right nodes) :
    NamePart.qualifierAndName (tree.nameParts nodes) =
      .ok (tree.namePart left, tree.namePart right) := by
  rw [NamePart.qualifierAndName, at?_nameParts, at?_nameParts]
  rcases h with hlabels | ⟨hnone, hl, hr, htwo⟩
  · obtain ⟨hq, hn⟩ := Labelled.find?_parts hlabels (by decide)
    rw [hq, hn]
    rfl
  · have hnames : (tree.nameParts nodes).filter
        (fun part => part.node.named && part.node.kind.isName) =
          [tree.namePart left, tree.namePart right] := by
      rw [nameParts_eq_map, List.filter_map]
      exact congrArg (List.map tree.namePart) (htwo.filter hl hr fun _ ho => ho)
    rw [hnames]
    rcases Unlabelled.find?_none hnone with hq | hn
    · rw [hq]
      rfl
    · rw [hn]
      cases nodes.find? fun node => node.label = some .qualifier <;> rfl

theorem aliasAndName_parts {left right : Node} {nodes : List Node}
    (h : AliasParts left right nodes) :
    NamePart.aliasAndName (tree.nameParts nodes) =
      .ok (tree.namePart left, tree.namePart right) := by
  rw [NamePart.aliasAndName, at?_nameParts, at?_nameParts]
  rcases h with hlabels | ⟨hnone, between, rfl⟩
  · obtain ⟨ha, hn⟩ := Labelled.find?_parts hlabels (by decide)
    rw [ha, hn]
    rfl
  · have hlast : (tree.nameParts (left :: (between ++ [right]))).getLast? =
        some (tree.namePart right) := by
      rw [nameParts_eq_map, ← List.cons_append, List.map_append, List.map_singleton,
        List.getLast?_concat]
    rw [hlast, nameParts]
    rcases Unlabelled.find?_none hnone with ha | hn
    · rw [ha]
      rfl
    · rw [hn]
      cases (left :: (between ++ [right])).find? fun node => node.label = some .aliasName <;> rfl

theorem nameOf_identifier {node : Node} {name : String} (hk : node.kind = .name .identifier)
    (ht : tree.text node = .ok name) : tree.nameOf node = .ok ⟨none, [⟨name, 0⟩]⟩ := by
  obtain ⟨kind, named, missing, start, stop, label, children⟩ := node
  cases hk
  rw [nameOf, ht]
  rfl

theorem nameOf_generic {node identifier arguments : Node} {name : String} {arity : Nat}
    (hk : node.kind = .name .generic) (hi : identifier.kind = .name .identifier)
    (ha : arguments.kind = .typeArgumentList)
    (hparts : TwoAmong (fun node => node.kind ≠ .name .identifier ∧ node.kind ≠ .typeArgumentList)
      identifier arguments node.children)
    (ht : tree.text identifier = .ok name) (hc : arguments.namedChildren.length = arity) :
    tree.nameOf node = .ok ⟨none, [⟨name, arity⟩]⟩ := by
  obtain ⟨kind, named, missing, start, stop, label, children⟩ := node
  cases hk
  change TwoAmong _ identifier arguments children at hparts
  have hidentifier : (children.find? fun child => child.kind = .name .identifier) =
      some identifier :=
    hparts.find?_left (by simp [hi]) fun node ho => by simp [ho.1]
  have harguments : (children.find? fun child => child.kind = .typeArgumentList) =
      some arguments :=
    hparts.find?_right (by simp [hi]) (by simp [ha]) fun node ho => by simp [ho.2]
  rw [nameOf, hidentifier, argumentCount, harguments, textOf?, ht, ← hc]
  rfl

theorem nameOf_aliased {node aliasNode nameNode : Node} {text : String} {name : QualifiedName}
    (hk : node.kind = .name .aliasQualified) (hparts : AliasParts aliasNode nameNode node.children)
    (ht : tree.text aliasNode = .ok text) (hn : tree.nameOf nameNode = .ok name) :
    tree.nameOf node = .ok ⟨some text, name.segments⟩ := by
  obtain ⟨kind, named, missing, start, stop, label, children⟩ := node
  cases hk
  rw [nameOf]
  refine (congrArg (· >>= _) (aliasAndName_parts hparts)).trans ?_
  simp only [namePart, except_ok_bind, hn, ht]
  rfl

theorem nameOf_qualified {node left right : Node} {head tail : QualifiedName}
    (hk : node.kind = .name .qualified) (hparts : QualifiedParts left right node.children)
    (hl : tree.nameOf left = .ok head) (hr : tree.nameOf right = .ok tail) :
    tree.nameOf node = .ok ⟨head.aliasName, head.segments ++ tail.segments⟩ := by
  obtain ⟨kind, named, missing, start, stop, label, children⟩ := node
  cases hk
  rw [nameOf]
  refine (congrArg (· >>= _) (qualifierAndName_parts hparts)).trans ?_
  simp only [namePart, except_ok_bind, hl, hr]
  rfl

/-- Reading the tree form of a name takes the brackets off. -/
theorem WritesName.nameOf {aliasName : Option String} {b : Bracketing} {node : Node}
    (h : tree.WritesName aliasName b node) : tree.nameOf node = .ok ⟨aliasName, b.segments⟩ := by
  induction h with
  | identifier kind text => exact nameOf_identifier kind text
  | generic kind identifierKind argumentsKind parts text count =>
    exact nameOf_generic kind identifierKind argumentsKind parts text count
  | aliased kind parts aliasText _ ih => exact nameOf_aliased kind parts aliasText ih
  | qualified kind parts _ _ ihl ihr => exact nameOf_qualified kind parts ihl ihr

/-! ## Every name has a tree form -/

theorem text_of_content {node : Node} {before text after : List Char}
    (hc : tree.content = before ++ (text ++ after)) (hstart : node.start = byteCount before)
    (hstop : node.stop = byteCount before + byteCount text) :
    tree.text node = .ok (String.ofList text) := by
  rw [SourceTree.text, hc, hstart, hstop, slice?_append]

/-- A segment is written by an identifier, or by a generic name if it has arguments. -/
theorem exists_leaf (s : Segment) (label : Option Label) (before : List Char) :
    ∃ node : Node, node.label = label ∧ ∀ (tree : SourceTree) (after : List Char),
      tree.content = before ++ (s.name.toList ++ after) →
      tree.WritesName none (.segment s) node := by
  obtain ⟨name, arity⟩ := s
  let start := byteCount before
  let stop := start + byteCount name.toList
  have htext : ∀ (label : Option Label) (tree : SourceTree) (after : List Char),
      tree.content = before ++ (name.toList ++ after) →
      tree.text (.mk (.name .identifier) true false start stop label []) = .ok name := by
    intro label tree after hc
    rw [text_of_content hc rfl rfl, String.ofList_toList]
  by_cases ha : arity = 0
  · subst ha
    exact ⟨.mk (.name .identifier) true false start stop label [], rfl,
      fun tree after hc => .identifier rfl (htext label tree after hc)⟩
  · let argument : Node := .mk (.name .identifier) true false stop stop none []
    let arguments : Node :=
      .mk .typeArgumentList true false stop stop none (List.replicate arity argument)
    have harity : arguments.namedChildren.length = arity := by
      change ((List.replicate arity argument).filter Node.named).length = arity
      rw [List.filter_replicate_of_pos rfl, List.length_replicate]
    let node : Node := .mk (.name .generic) true false start stop label
      [.mk (.name .identifier) true false start stop none [], arguments]
    refine ⟨node, rfl, fun tree after hc => ?_⟩
    exact .generic rfl rfl rfl ⟨[], [], [], rfl, List.forall_mem_nil _⟩
      (htext none tree after hc) harity

/-- Every bracketed name has a tree form, with or without an alias, behind any text. -/
theorem exists_tree_form (b : Bracketing) (aliasName : Option String) (label : Option Label)
    (before : List Char) :
    ∃ (text : List Char) (node : Node), node.label = label ∧
      ∀ (tree : SourceTree) (after : List Char), tree.content = before ++ (text ++ after) →
        tree.WritesName aliasName b node := by
  induction b generalizing aliasName label before with
  | segment s =>
    cases aliasName with
    | none =>
      obtain ⟨node, hlabel, hwrites⟩ := exists_leaf s label before
      exact ⟨s.name.toList, node, hlabel, hwrites⟩
    | some aliasText =>
      let stop := byteCount before + byteCount aliasText.toList
      let written : Node :=
        .mk (.name .identifier) true false (byteCount before) stop (some .aliasName) []
      obtain ⟨leaf, hleaf, hwrites⟩ :=
        exists_leaf s (some .name) (before ++ (aliasText.toList ++ [':', ':']))
      refine ⟨aliasText.toList ++ (':' :: ':' :: s.name.toList),
        .mk (.name .aliasQualified) true false (byteCount before) leaf.stop label [written, leaf],
        rfl, fun tree after hc => ?_⟩
      have hcontent : tree.content =
          before ++ (aliasText.toList ++ ':' :: ':' :: (s.name.toList ++ after)) := by
        simpa using hc
      refine .aliased rfl (.inl ⟨⟨[], [], [], rfl, List.forall_mem_nil _⟩, rfl, hleaf⟩) ?_
        (hwrites tree after (by simpa using hcontent))
      rw [text_of_content hcontent rfl rfl, String.ofList_toList]
  | dot l r ihl ihr =>
    obtain ⟨textl, left, hleft, hl⟩ := ihl aliasName (some .qualifier) before
    obtain ⟨textr, right, hright, hr⟩ := ihr none (some .name) (before ++ (textl ++ ['.']))
    refine ⟨textl ++ '.' :: textr,
      .mk (.name .qualified) true false left.start right.stop label [left, right], rfl,
      fun tree after hc => ?_⟩
    exact .qualified rfl (.inl ⟨⟨[], [], [], rfl, List.forall_mem_nil _⟩, hleft, hright⟩)
      (hl tree ('.' :: (textr ++ after)) (by simpa using hc)) (hr tree after (by simpa using hc))

/-- **Reading inverts the tree form of a name.** Every alias with every bracketed name has a tree
form, and whatever its shape, it is read as that alias and those segments. -/
theorem tree_form_inverted (aliasName : Option String) (b : Bracketing) :
    (∃ (tree : SourceTree) (node : Node), tree.WritesName aliasName b node) ∧
      ∀ (tree : SourceTree) (node : Node), tree.WritesName aliasName b node →
        tree.nameOf node = .ok ⟨aliasName, b.segments⟩ := by
  refine ⟨?_, fun tree node h => h.nameOf⟩
  obtain ⟨text, node, -, hwrites⟩ := exists_tree_form b aliasName none []
  exact ⟨⟨.source 0, "", text, false, node⟩, node, hwrites _ [] (List.append_nil text).symm⟩

end SourceTree

end Syntax

open Syntax

namespace Sample

/-- `global::A.B<T>.C`, with the last two segments in brackets of their own and labels on the inner
nodes only. -/
def aliasedName : Node :=
  .mk (.name .qualified) true false 0 16 none
    [.mk (.name .aliasQualified) true false 0 9 none
      [.mk (.name .identifier) true false 0 6 (some .aliasName) [],
        .mk (.other "::") false false 6 8 none [],
        .mk (.name .identifier) true false 8 9 (some .name) []],
      .mk (.other ".") false false 9 10 none [],
      .mk (.name .qualified) true false 10 16 none
        [.mk (.name .generic) true false 10 14 (some .qualifier)
          [.mk (.name .identifier) true false 10 11 none [],
            .mk .typeArgumentList true false 11 14 none
              [.mk (.other "<") false false 11 12 none [],
                .mk (.name .identifier) true false 12 13 none [],
                .mk (.other ">") false false 13 14 none []]],
          .mk (.other ".") false false 14 15 none [],
          .mk (.name .identifier) true false 15 16 (some .name) []]]

/-- A source that consists of the name. -/
def aliasedSource : SourceTree :=
  ⟨.source 0, "name.cs", "global::A.B<T>.C".toList, false, aliasedName⟩

end Sample

/-- A name with an alias and a generic segment that leans to the right. -/
theorem tree_form_of_aliased_name :
    Sample.aliasedSource.WritesName (some "global")
        (.dot (.segment ⟨"A", 0⟩) (.dot (.segment ⟨"B", 1⟩) (.segment ⟨"C", 0⟩)))
        Sample.aliasedName ∧
      Sample.aliasedSource.nameOf Sample.aliasedName =
        .ok ⟨some "global", [⟨"A", 0⟩, ⟨"B", 1⟩, ⟨"C", 0⟩]⟩ := by
  have hwrites : Sample.aliasedSource.WritesName (some "global")
      (.dot (.segment ⟨"A", 0⟩) (.dot (.segment ⟨"B", 1⟩) (.segment ⟨"C", 0⟩)))
      Sample.aliasedName := by
    refine .qualified rfl (.inr ⟨.inl (by decide), rfl, rfl, [], [_], [], rfl, by decide⟩)
      (.aliased rfl (.inl ⟨⟨[], [_], [], rfl, by decide⟩, rfl, rfl⟩) rfl (.identifier rfl rfl))
      (.qualified rfl (.inl ⟨⟨[], [_], [], rfl, by decide⟩, rfl, rfl⟩)
        (.generic rfl rfl rfl ⟨[], [], [], rfl, by decide⟩ rfl rfl) (.identifier rfl rfl))
  exact ⟨hwrites, (SourceTree.tree_form_inverted _ _).2 _ _ hwrites⟩

end PrintGen
