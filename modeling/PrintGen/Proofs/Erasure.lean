import PrintGen.Proofs.Confinement
import PrintGen.Proofs.Layout

/-!
# Trees without one of their directives

A using directive is taken out of a tree, wherever it stands among the nodes that are declared. The
nodes around it stay what they are but for their members, so each still says the same of the
namespace or the type that it declares. All other nodes are declared as before.
-/

namespace PrintGen

open Syntax Symbols

/-! ## Nodes with other members -/

namespace Syntax.Node

/-- The node with other children. -/
def withChildren (node : Node) (children : List Node) : Node :=
  .mk node.kind node.named node.missing node.start node.stop node.label children

/-- The first body among these nodes gets other members. -/
def replaceBody (members : List Node) : List Node → List Node
  | [] => []
  | node :: rest =>
    if node.kind.isBody then node.withChildren members :: rest
    else node :: replaceBody members rest

/-- The declaration with other members in its body. -/
def withBody (node : Node) (members : List Node) : Node :=
  node.withChildren (replaceBody members node.children)

/-- Two children of the same kind and label, which are the same unless they are bodies. -/
structure Stays (child child' : Node) : Prop where
  kind : child'.kind = child.kind
  label : child'.label = child.label
  same : child.kind.isBody = false → child' = child

theorem replaceBody_stays (members nodes : List Node) :
    List.Forall₂ Stays nodes (replaceBody members nodes) := by
  induction nodes with
  | nil => exact .nil
  | cons node rest ih =>
    rw [replaceBody]
    split
    · rename_i hb
      refine .cons ⟨rfl, rfl, fun hn => ?_⟩
        (List.forall₂_same.mpr fun n _ => ⟨rfl, rfl, fun _ => rfl⟩)
      rw [hb] at hn
      cases hn
    · exact .cons ⟨rfl, rfl, fun _ => rfl⟩ ih

theorem find?_replaceBody (members nodes : List Node) :
    ((replaceBody members nodes).find? fun child => child.kind.isBody) =
      (nodes.find? fun child => child.kind.isBody).map fun body => body.withChildren members := by
  induction nodes with
  | nil => rfl
  | cons node rest ih =>
    rw [replaceBody]
    split
    · rename_i hb
      rw [List.find?_cons_of_pos (by exact hb), List.find?_cons_of_pos (by exact hb)]
      rfl
    · rename_i hb
      rw [List.find?_cons_of_neg (by exact hb), List.find?_cons_of_neg (by exact hb), ih]

section

variable (node : Node) (members : List Node)

theorem withBody_firstChild? {kind : Kind} (hk : kind.isBody = false) :
    (node.withBody members).firstChild? kind = node.firstChild? kind := by
  have hrel : Option.Rel Stays (node.firstChild? kind) ((node.withBody members).firstChild? kind) :=
    forall₂_find? (replaceBody_stays members node.children) fun _ _ h => by rw [h.kind]
  generalize hx : node.firstChild? kind = x at hrel ⊢
  generalize (node.withBody members).firstChild? kind = y at hrel ⊢
  cases hrel with
  | none => rfl
  | @some child child' h =>
    rw [firstChild?] at hx
    have hkind : child.kind = kind := by simpa using List.find?_some hx
    rw [h.same (hkind ▸ hk)]

theorem withBody_childAt? (label : Label) :
    Option.Rel Stays (node.childAt? label) ((node.withBody members).childAt? label) :=
  forall₂_find? (replaceBody_stays members node.children) fun _ _ h => by rw [h.label]

theorem withBody_hasChild (kind : Kind) :
    (node.withBody members).hasChild kind = node.hasChild kind :=
  forall₂_any (replaceBody_stays members node.children) fun _ _ h => by rw [h.kind]

theorem withBody_typeKind? : (node.withBody members).typeKind? = node.typeKind? := by
  rw [typeKind?, typeKind?, withBody_hasChild]
  rfl

theorem withBody_baseName? : (node.withBody members).baseName? = node.baseName? := by
  rw [baseName?, baseName?, withBody_firstChild? node members rfl]

theorem withBody_nameNode? : (node.withBody members).nameNode? = node.nameNode? := by
  have hrel := withBody_childAt? node members .name
  rw [nameNode?, nameNode?, withBody_firstChild? node members rfl]
  generalize node.childAt? .name = x at hrel ⊢
  generalize (node.withBody members).childAt? .name = y at hrel ⊢
  cases hrel with
  | none => rfl
  | @some child child' h =>
    dsimp only
    rw [h.kind]
    split
    · rename_i hk
      rw [h.same (by rw [hk]; rfl)]
    · rfl

end

end Syntax.Node

/-- The tree with other nodes below its root. -/
def Syntax.SourceTree.withNodes (tree : SourceTree) (nodes : List Node) : SourceTree :=
  { tree with root := tree.root.withChildren nodes }

theorem Syntax.SourceTree.withNodes_withNodes (tree : SourceTree) (nodes more : List Node) :
    (tree.withNodes nodes).withNodes more = tree.withNodes more :=
  rfl

namespace Symbols

theorem members_withBody {node : Node} {inner : List Node} (h : members node ≠ []) :
    members (node.withBody inner) = inner := by
  have hbody : (node.withBody inner).body? = node.body?.map fun body => body.withChildren inner :=
    Node.find?_replaceBody inner node.children
  rw [members] at h ⊢
  rw [hbody]
  cases hb : node.body? with
  | none =>
    rw [hb] at h
    exact absurd rfl h
  | some body => rfl

/-- Only what is a name has segments. -/
theorem nameOf_body {tree : SourceTree} {node : Node} (h : node.kind.isBody = true) :
    tree.nameOf node = .ok ⟨none, []⟩ := by
  obtain ⟨kind, named, missing, start, stop, label, children⟩ := node
  cases kind <;> first | rfl | cases h

/-- A namespace has the same name with other members. -/
theorem segmentsOf_withBody (tree : SourceTree) (node : Node) (inner : List Node) :
    segmentsOf tree (node.withBody inner) = segmentsOf tree node := by
  have hrel : Option.Rel Node.Stays (namespaceName? node) (namespaceName? (node.withBody inner)) :=
    optionRel_or (Node.withBody_childAt? node inner .name)
      (forall₂_find? (Node.replaceBody_stays inner node.children) fun _ _ h => by rw [h.kind])
  rw [segmentsOf, segmentsOf]
  generalize namespaceName? node = x at hrel ⊢
  generalize namespaceName? (node.withBody inner) = y at hrel ⊢
  cases hrel with
  | none => rfl
  | @some child child' h =>
    dsimp only
    cases hb : child.kind.isBody with
    | false => rw [h.same hb]
    | true => rw [nameOf_body hb, nameOf_body (h.kind ▸ hb)]

/-! ## Erasing a directive -/

/-- The nodes inside a node that are declared like its siblings. -/
def entered (node : Node) : List Node :=
  match node.kind with
  | .wrapper _ | .fileScopedNamespace => node.children
  | .namespaceDeclaration | .typeDeclaration _ => members node
  | _ => []

/-- The node with others of these. -/
def withEntered (node : Node) (inner : List Node) : Node :=
  match node.kind with
  | .namespaceDeclaration | .typeDeclaration _ => node.withBody inner
  | _ => node.withChildren inner

/-- Whether a node is a namespace block with a level of its own; a block without a name has none. -/
def isBlock (tree : SourceTree) (node : Node) : Bool :=
  node.kind = .namespaceDeclaration && (segmentsOf tree node).toOption ≠ some []

/-- A directive is taken out of siblings or out of the nodes inside them. With it comes the
innermost block around the directive; there is none if the directive belongs to the file. What is
taken out is not what a namespace without braces is named by. -/
inductive Erases (tree : SourceTree) (d : Node) : Option Node → List Node → List Node → Prop
  | here {rest} : Erases tree d none (d :: rest) rest
  | later {block node rest rest'} (h : Erases tree d block rest rest') :
      Erases tree d block (node :: rest) (node :: rest')
  | inside {block node rest inner} (h : Erases tree d block (entered node) inner)
      (hn : node.kind = .fileScopedNamespace →
        segmentsOf tree (node.withChildren inner) = segmentsOf tree node) :
      Erases tree d (if isBlock tree node then some (block.getD node) else block) (node :: rest)
        (withEntered node inner :: rest)

theorem Erases.ne_nil {tree : SourceTree} {d : Node} {block : Option Node}
    {nodes nodes' : List Node} (h : Erases tree d block nodes nodes') : nodes ≠ [] := by
  cases h <;> exact List.cons_ne_nil _ _

/-- The block around a directive that no other block is around is the innermost one. -/
theorem Erases.inBlock {tree : SourceTree} {d node : Node} {rest inner : List Node}
    (hb : isBlock tree node = true) (h : Erases tree d none (entered node) inner) :
    Erases tree d (some node) (node :: rest) (withEntered node inner :: rest) := by
  have hinside := @Erases.inside tree d none node rest inner h fun hk => by
    simp [isBlock, hk] at hb
  rw [if_pos hb] at hinside
  exact hinside

/-! ## Runs over nodes that stay -/

/-- Trees and nodes are what they were. -/
def unmoved : Pairing :=
  ⟨Eq, Eq⟩

theorem unmoved_oneToOne : unmoved.OneToOne := by
  have heq : ∀ {α : Type}, Relator.BiUnique (@Eq α) :=
    ⟨fun _ _ _ h h' => h.trans h'.symm, fun _ _ _ h h' => h.symm.trans h'⟩
  exact ⟨heq, heq⟩

theorem markTwin_unmoved {m m' : Mark} (h : MarkTwin unmoved m m') : m' = m := by
  cases m
  cases m'
  rw [Mark.mk.injEq]
  exact ⟨h.tree.symm, h.rank⟩

theorem UsingTwin.frame_unmoved {u v : Using} (h : UsingTwin unmoved u v) : v.frame = u.frame := by
  have hframe := h.frame
  generalize u.frame = m at hframe ⊢
  generalize v.frame = m' at hframe ⊢
  cases hframe with
  | none => rfl
  | some hm => rw [markTwin_unmoved hm]

theorem frameTwin_unmoved {f f' : Frame} (h : FrameTwin unmoved f f') : f' = f := by
  cases f
  cases f'
  rw [Frame.mk.injEq]
  exact ⟨markTwin_unmoved h.mark, h.home, h.isFile⟩

theorem scopeTwin_unmoved {scope scope' : Scope} (h : ScopeTwin unmoved scope scope') :
    scope' = scope := by
  induction h with
  | nil => rfl
  | cons hf _ ih => rw [frameTwin_unmoved hf, ih]

theorem scopeTwin_self (scope : Scope) : ScopeTwin unmoved scope scope :=
  List.forall₂_same.mpr fun _ _ => ⟨⟨rfl, rfl⟩, rfl, rfl⟩

/-- Two trees with the same identity and text. -/
structure SameText (tree other : SourceTree) : Prop where
  id : other.id = tree.id
  content : other.content = tree.content

section

variable {tree other : SourceTree} (hsame : SameText tree other) {lost : Using → Prop}

include hsame

theorem nodeTwins_self (nodes : List Node) :
    List.Forall₂ (NodeTwin unmoved tree other) nodes nodes := by
  refine NodeTwin.all_of_alike nodes nodes (readAlike_self hsame.content nodes) ?_
  refine List.forall₂_same.mpr fun n _ _ => ?_
  change (⟨tree.id, n.start, n.stop, n.kind⟩ : NodeKey) = ⟨other.id, n.start, n.stop, n.kind⟩
  rw [hsame.id]

/-- **Tables that correspond still do after runs over the same nodes.** -/
theorem Twin.declares {scope : Scope} {within : Option TypePath} {nodes : List Node}
    {table table' last last' : Table} (ht : Twin unmoved lost table table')
    (h : Declares tree scope within nodes table last)
    (h' : Declares other scope within nodes table' last') : Twin unmoved lost last last' :=
  ((declareMembers_tracks unmoved_oneToOne hsame.id.symm nodes nodes scope scope within
    (nodeTwins_self hsame nodes) (scopeTwin_self scope)).returned ht (declareMembers_iff.mpr h)
    (declareMembers_iff.mpr h')).1

theorem Twin.withScope {table table' : Table} (ht : Twin unmoved lost table table')
    (segments : List Segment) (scope : Scope) :
    (Table.withScope other segments scope table').1 =
        (Table.withScope tree segments scope table).1 ∧
      Twin unmoved lost (Table.withScope tree segments scope table).2
        (Table.withScope other segments scope table').2 := by
  obtain ⟨hlast, hscope⟩ := (enterSegments_tracks unmoved_oneToOne hsame.id.symm segments
    (scopeTwin_self scope)).returned ht (enterSegments_ok.mpr rfl) (enterSegments_ok.mpr rfl)
  exact ⟨scopeTwin_unmoved hscope, hlast⟩

theorem Twin.withFrame {table table' : Table} (ht : Twin unmoved lost table table')
    (home : Namespace) (isFile : Bool) :
    (table'.withFrame other home isFile).1 = (table.withFrame tree home isFile).1 ∧
      Twin unmoved lost (table.withFrame tree home isFile).2
        (table'.withFrame other home isFile).2 := by
  have hrun : ∀ (known : SourceTree) (start : Table), openFrame known home isFile start =
      .ok (start.withFrame known home isFile).1 (start.withFrame known home isFile).2 :=
    fun _ _ => rfl
  obtain ⟨hopened, hframe⟩ := (openFrame_tracks unmoved_oneToOne hsame.id.symm home isFile).returned
    ht (hrun tree table) (hrun other table')
  exact ⟨frameTwin_unmoved hframe, hopened⟩

theorem segmentsOf_same (node : Node) : segmentsOf other node = segmentsOf tree node :=
  segmentsOf_alike (readsAlike_self hsame.content node)

/-- A declaration says the same of its type with other members. -/
theorem SameHeader.withBody (node : Node) (inner : List Node) :
    SameHeader unmoved tree other node (node.withBody inner) where
  key _ := by
    change (⟨tree.id, node.start, node.stop, node.kind⟩ : NodeKey) =
      ⟨other.id, node.start, node.stop, node.kind⟩
    rw [hsame.id]
  declaredName := by
    rw [SourceTree.declaredName, Node.withBody_nameNode?]
    exact (readsAlike_self hsame.content node).declaredName
  typeParameters := by
    have hparameters : other.typeParameters (node.withBody inner) = other.typeParameters node := by
      rw [SourceTree.typeParameters, SourceTree.typeParameters,
        Node.withBody_firstChild? node inner rfl]
    rw [hparameters]
    exact (readsAlike_self hsame.content node).typeParameters
  baseName? := by
    rw [Node.withBody_baseName?]
    exact optionRel_mono (readsAlike_self hsame.content node).baseName?
      fun _ _ hn => nameOf_alike _ _ hn

theorem Twin.withType {table table' : Table} (ht : Twin unmoved lost table table') {node : Node}
    {kind : TypeKind} (hk : node.kind = .typeDeclaration kind) (inner : List Node) {scope : Scope}
    {within : Option TypePath} {t t' : TypePath} {parameters parameters' : List String}
    (hread : typeOf tree node scope within = .ok (t, parameters))
    (hread' : typeOf other (node.withBody inner) scope within = .ok (t', parameters')) :
    t' = t ∧ Twin unmoved lost (table.withType tree node kind scope t parameters)
      (table'.withType other (node.withBody inner) kind scope t' parameters') := by
  have hrun : Tracks (Twin unmoved lost) (fun t t' => t' = t)
      (declareType tree node (node.typeKind?.getD kind) scope within)
      (declareType other (node.withBody inner) ((node.withBody inner).typeKind?.getD kind) scope
        within) := by
    rw [Node.withBody_typeKind?]
    exact (SameHeader.withBody hsame node inner).declareType unmoved_oneToOne (by rw [hk]; rfl)
      (scopeTwin_self scope) _ within
  obtain ⟨htwin, htype⟩ := hrun.returned ht (declareType_ok.mpr ⟨_, hread, rfl⟩)
    (declareType_ok.mpr ⟨_, hread', rfl⟩)
  exact ⟨htype, htwin⟩

end

/-! ## Runs over nodes by their kinds -/

section

variable {tree : SourceTree} {scope : Scope} {within : Option TypePath} {node : Node}
  {rest : List Node} {table last : Table}

theorem Declares.of_directive (h : Declares tree scope within (node :: rest) table last)
    (hk : node.kind = .usingDirective) : ∃ d, directiveOf tree node = .ok d ∧
      Declares tree scope within rest (table.withDirective tree node scope d) last := by
  cases h with
  | directive _ hd hr => exact ⟨_, hd, hr⟩
  | _ => simp_all [isStorage, isOpening]

theorem Declares.of_block (h : Declares tree scope within (node :: rest) table last)
    (hk : node.kind = .namespaceDeclaration) :
    ∃ segments mid, segmentsOf tree node = .ok segments ∧
      Declares tree (Table.withScope tree segments scope table).1 none (members node)
        (Table.withScope tree segments scope table).2 mid ∧
      Declares tree scope within rest mid last := by
  cases h with
  | block _ hn hb hr => exact ⟨_, _, hn, hb, hr⟩
  | _ => simp_all [isStorage, isOpening]

theorem Declares.of_file (h : Declares tree scope within (node :: rest) table last)
    (hk : node.kind = .fileScopedNamespace) :
    ∃ segments mid, segmentsOf tree node = .ok segments ∧
      Declares tree (Table.withScope tree segments scope table).1 none node.children
        (Table.withScope tree segments scope table).2 mid ∧
      Declares tree (Table.withScope tree segments scope table).1 within rest mid last := by
  cases h with
  | file _ hn hb hr => exact ⟨_, _, hn, hb, hr⟩
  | _ => simp_all [isStorage, isOpening]

theorem Declares.of_type (h : Declares tree scope within (node :: rest) table last)
    {kind : TypeKind} (hk : node.kind = .typeDeclaration kind) :
    ∃ t parameters mid, typeOf tree node scope within = .ok (t, parameters) ∧
      Declares tree scope (some t)
        (openMembers (table.withType tree node kind scope t parameters) t node)
        (table.withType tree node kind scope t parameters) mid ∧
      Declares tree scope within rest mid last := by
  cases h with
  | type hkind ht hb hr =>
    obtain rfl : kind = _ := Kind.typeDeclaration.inj (hk.symm.trans hkind)
    exact ⟨_, _, _, ht, hb, hr⟩
  | _ => simp_all [isStorage, isOpening]

theorem Declares.of_wrapper (h : Declares tree scope within (node :: rest) table last)
    {w : Wrapper} (hk : node.kind = .wrapper w) :
    ∃ mid, Declares tree scope within node.children table mid ∧
      Declares tree scope within rest mid last := by
  cases h with
  | wrapper _ hb hr => exact ⟨_, hb, hr⟩
  | _ => simp_all [isStorage, isOpening]

/-- Unless it opens a namespace for the rest of the file, the first node can be declared alone. -/
theorem Declares.first (h : Declares tree scope within (node :: rest) table last)
    (hk : node.kind ≠ .fileScopedNamespace) :
    ∃ mid, Declares tree scope within [node] table mid ∧
      Declares tree scope within rest mid last := by
  cases h with
  | directive hk hd hr => exact ⟨_, .directive hk hd .nil, hr⟩
  | block hk hn hb hr => exact ⟨_, .block hk hn hb .nil, hr⟩
  | file hk' => exact absurd hk' hk
  | storage hk hf hr => exact ⟨_, .storage hk hf .nil, hr⟩
  | type hk ht hb hr => exact ⟨_, .type hk ht hb .nil, hr⟩
  | wrapper hk hb hr => exact ⟨_, .wrapper hk hb .nil, hr⟩
  | skip hk hs hr => exact ⟨_, .skip hk hs .nil, hr⟩

end

end Symbols

end PrintGen
