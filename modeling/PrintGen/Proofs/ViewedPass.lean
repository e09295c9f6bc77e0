import PrintGen.Proofs.SiteViews
import PrintGen.Proofs.Stubs

/-!
# A pass seen through a view

What a pass makes of its candidates depends on their keys and places, and on what the stubs among
them say. So it comes to the same from what a view shows of the candidates and of the model.
-/

namespace PrintGen

open Syntax Symbols

/-! ## Lists of results -/

section

variable {ε α β γ : Type}

theorem except_map_bind (x : Except ε α) (view : α → β) (f : β → Except ε γ) :
    (x.map view >>= f) = x >>= fun a => f (view a) := by
  cases x <;> rfl

theorem except_bind_congr {x : Except ε α} {f g : α → Except ε β}
    (h : ∀ a, x = .ok a → f a = g a) : x >>= f = x >>= g := by
  cases x with
  | error e => rfl
  | ok a => exact h a rfl

theorem mapM_view (f : α → Except ε β) (view : β → γ) (as : List α) :
    as.mapM (fun a => (f a).map view) = (as.mapM f).map (List.map view) := by
  induction as with
  | nil => rfl
  | cons a rest ih =>
    rw [List.mapM_cons, List.mapM_cons, ih]
    cases f a with
    | error e => rfl
    | ok b => cases rest.mapM f <;> rfl

theorem filterAuxM_found {p : α → Except ε Bool} (as found : List α) :
    as.filterAuxM p found = (as.filterAuxM p []).map (· ++ found) := by
  induction as generalizing found with
  | nil => rfl
  | cons a rest ih =>
    rw [List.filterAuxM, List.filterAuxM]
    cases p a with
    | error e => rfl
    | ok b =>
      rw [except_ok_bind, except_ok_bind, ih, ih (bif b then [a] else [])]
      cases rest.filterAuxM p [] <;> cases b <;> simp [Except.map]

theorem filterM_cons {p : α → Except ε Bool} (a : α) (rest : List α) :
    (a :: rest).filterM p = (do
      let b ← p a
      let found ← rest.filterM p
      return if b then a :: found else found) := by
  rw [List.filterM, List.filterAuxM]
  cases p a with
  | error e => rfl
  | ok b =>
    rw [except_ok_bind, except_ok_bind, filterAuxM_found, List.filterM]
    cases rest.filterAuxM p [] <;> cases b <;>
      simp [Except.map, bind, Except.bind, pure, Except.pure]

/-- A filter with results finds the same members where only those are missing that it drops. -/
theorem filterM_shown {p q : α → Except ε Bool} {keep : α → Bool} {view : α → α} {as : List α}
    (hp : ∀ a ∈ as, q (view a) = p a) (hk : ∀ a ∈ as, keep a = false → p a = .ok false) :
    ((as.filter keep).map view).filterM q = (as.filterM p).map (List.map view) := by
  induction as with
  | nil => rfl
  | cons a rest ih =>
    obtain ⟨hpa, hprest⟩ := List.forall_mem_cons.mp hp
    obtain ⟨hka, hkrest⟩ := List.forall_mem_cons.mp hk
    have ih := ih hprest hkrest
    rw [filterM_cons]
    cases h : keep a with
    | false =>
      rw [List.filter_cons_of_neg (by simp [h]), ih, hka h, except_ok_bind]
      cases rest.filterM p <;> rfl
    | true =>
      rw [List.filter_cons_of_pos h, List.map_cons, filterM_cons, hpa, ih]
      cases p a with
      | error e => rfl
      | ok b => cases rest.filterM p <;> cases b <;> rfl

end

/-! ## Visits -/

namespace Syntax.Node

/-- The owner that a node hands down to its children. -/
def ownerBelow (owner : Option Node) (node : Node) : Option Node :=
  if node.kind.isTypeDeclaration then some node else owner

mutual

/-- The nodes of a tree as they are visited below an owner. -/
def visitsIn (owner : Option Node) : Node → List Occurrence
  | node@(.mk _ _ _ _ _ _ children) =>
    ⟨owner, node⟩ :: visitsAmong (ownerBelow owner node) children

/-- The nodes of several trees as they are visited below an owner. -/
def visitsAmong (owner : Option Node) : List Node → List Occurrence
  | [] => []
  | node :: rest => visitsIn owner node ++ visitsAmong owner rest

end

theorem visitsIn_eq (owner : Option Node) (node : Node) :
    node.visitsIn owner = ⟨owner, node⟩ :: visitsAmong (ownerBelow owner node) node.children := by
  cases node
  rfl

mutual

theorem visitsIn_places (around : List (Node × Nat)) : ∀ node : Node,
    (node.placesIn around).map Place.occurrence =
      node.visitsIn ((around.map Prod.fst).find? fun n => n.kind.isTypeDeclaration)
  | node@(.mk kind named missing start stop label children) => by
    rw [placesIn, visitsIn, List.map_cons, visitsAmong_places]
    rfl

theorem visitsAmong_places (parent : Node) (around : List (Node × Nat)) :
    ∀ (i : Nat) (nodes : List Node), (placesAmong parent around i nodes).map Place.occurrence =
      visitsAmong (ownerBelow ((around.map Prod.fst).find? fun n => n.kind.isTypeDeclaration) parent)
        nodes
  | _, [] => rfl
  | i, node :: rest => by
    have howner : (((parent, i) :: around).map Prod.fst).find?
        (fun n => n.kind.isTypeDeclaration) =
        ownerBelow ((around.map Prod.fst).find? fun n => n.kind.isTypeDeclaration) parent := by
      rw [List.map_cons, List.find?_cons, ownerBelow]
      cases parent.kind.isTypeDeclaration <;> rfl
    rw [placesAmong, visitsAmong, List.map_append, visitsIn_places, visitsAmong_places, howner]

end

theorem occurrences_eq_visits (root : Node) : root.occurrences = root.visitsIn none := by
  rw [occurrences_eq_places, places, visitsIn_places]
  rfl

end Syntax.Node

/-! ## Models and candidates in a view -/

namespace Symbols.View

variable (v : View)

/-- A visited node in a view. -/
def occurrence (o : Occurrence) : Occurrence :=
  ⟨o.owner.map v.node, v.node o.node⟩

/-- A candidate in a view. -/
def candidate (c : Candidate) : Candidate :=
  ⟨v.tree c.tree, c.owner.map v.node, v.node c.node⟩

/-- Candidates in a view. -/
def candidates (c : Candidates) : Candidates :=
  ⟨c.fields.map v.candidate, c.stubs.map v.candidate⟩

/-- A field with its classes, in a view. -/
def boundField (f : BoundField) : BoundField :=
  ⟨v.field f.field, f.classes⟩

/-- A resolver in a view. -/
def resolver (r : Resolver) : Resolver :=
  ⟨v.model r.model, r.marker⟩

/-- The group of a stub in a view. -/
def stubGroup {ι : Type} (g : StubGroup ι) : StubGroup ι :=
  { g with site := g.site.map v.site }

/-- All that is read of a method is the same in a view. -/
structure ReadsMethod (tree : SourceTree) (node : Node) : Prop where
  declaredName : (v.tree tree).declaredName (v.node node) = tree.declaredName node
  modifiers : (v.tree tree).modifiers (v.node node) = tree.modifiers node
  returnType : (v.tree tree).returnType (v.node node) = tree.returnType node
  parameterCount : (v.node node).parameterCount = node.parameterCount

theorem isStub {tree : SourceTree} {node : Node} (stubName : Option String)
    (h : node.kind = .methodDeclaration → v.ReadsMethod tree node) :
    (v.tree tree).isStub stubName (v.node node) = tree.isStub stubName node := by
  rw [SourceTree.isStub, v.node_kind, SourceTree.isStub]
  by_cases hk : node.kind = .methodDeclaration
  · rw [if_pos hk, if_pos hk, (h hk).modifiers, (h hk).declaredName, (h hk).parameterCount]
  · rw [if_neg hk, if_neg hk]

theorem dealClasses (fields : List FieldEntry) (classes : List (Option TypePath)) :
    Symbols.dealClasses (fields.map v.field) classes =
      (Symbols.dealClasses fields classes).map v.boundField := by
  induction fields generalizing classes with
  | nil => rfl
  | cons f rest ih =>
    have hlength : (v.field f).attributes.length = f.attributes.length := List.length_map ..
    simp only [List.map_cons, Symbols.dealClasses, hlength, ih]
    rfl

theorem site_location (s : Site) : (v.site s).location = s.location :=
  v.locationOf s.tree s.node

section

variable (m : Model)

theorem declaredFields (key : NodeKey) :
    (v.model m).declaredFields key = (m.declaredFields key).map v.boundField := by
  have hfields : (v.model m).fields = m.fields.map v.boundField := v.dealClasses _ _
  rw [Model.declaredFields, hfields, List.filter_map]
  rfl

theorem containingType? (tree : SourceTree) (owner : Option Node) :
    (v.model m).containingType? (v.tree tree) (owner.map v.node) =
      m.containingType? tree owner := by
  cases owner with
  | none => rfl
  | some node =>
    rw [Model.containingType?, Model.containingType?, Option.map_some, Option.bind_some,
      Option.bind_some, v.key]
    rfl

theorem printableFields (t : TypePath) :
    ((v.model m).printableFields t).map FieldEntry.name =
      (m.printableFields t).map FieldEntry.name := by
  have hfields : (v.model m).printableFields t = (m.printableFields t).map v.field := by
    have hown : (v.model m).table.fieldsOf t = (m.table.fieldsOf t).map v.field :=
      List.filter_map ..
    rw [Model.printableFields, hown, List.filter_map]
    rfl
  rw [hfields, List.map_map]
  rfl

theorem header (t : TypePath) : (v.model m).header t = m.header t := by
  have hentry : (v.model m).table.entryOf? t = (m.table.entryOf? t).map v.type :=
    v.table_entryOf? m.table t
  rw [Model.header, hentry, Model.header]
  cases m.table.entryOf? t <;> rfl

theorem declarationsOf (t : TypePath) :
    (v.model m).declarationsOf t = (m.declarationsOf t).map v.site := by
  have hentry : (v.model m).table.entryOf? t = (m.table.entryOf? t).map v.type :=
    v.table_entryOf? m.table t
  rw [Model.declarationsOf, hentry, Model.declarationsOf]
  cases m.table.entryOf? t <;> rfl

end

/-- A diagnostic has the same place in a view. -/
theorem nestedType (t : TypePath) (declarations : List Site) (origin : String)
    (site : Option Site) :
    Diagnostic.nestedType t (declarations.map v.site) origin (site.map v.site) =
      .nestedType t declarations origin site := by
  have hplace : (site.map v.site).or (declarations.map v.site).head? =
      (site.or declarations.head?).map v.site := by
    rw [List.head?_map]
    cases site <;> rfl
  have hpath : ∀ s : Site, (v.site s).tree.path = s.tree.path := fun s => v.tree_path s.tree
  simp only [Diagnostic.nestedType, hplace, Option.map_map, Function.comp_def, v.site_location,
    hpath]

/-! ## What is made of the candidates -/

section

variable (r : Resolver)

theorem markedAmong (candidates : List Candidate) :
    (v.resolver r).markedAmong (candidates.map v.candidate) = r.markedAmong candidates := by
  have hdeclared : (candidates.map v.candidate).flatMap
        (fun c => (v.resolver r).model.declaredFields (c.tree.key c.node)) =
      (candidates.flatMap fun c => r.model.declaredFields (c.tree.key c.node)).map
        v.boundField := by
    rw [List.flatMap_map, List.map_flatMap]
    refine List.flatMap_congr fun c _ => ?_
    have hkey : (v.candidate c).tree.key (v.candidate c).node = c.tree.key c.node :=
      v.key c.tree c.node
    rw [hkey]
    exact v.declaredFields r.model _
  rw [Resolver.markedAmong, Resolver.markedAmong, hdeclared, List.filter_map, List.map_map]
  rfl

theorem firstStubs (seen : List TypePath) (candidates : List Candidate) :
    (v.resolver r).firstStubs seen (candidates.map v.candidate) =
      (r.firstStubs seen candidates).map (Prod.map id v.candidate) := by
  induction candidates generalizing seen with
  | nil => rfl
  | cons c rest ih =>
    have howner : (v.resolver r).model.containingType? (v.candidate c).tree (v.candidate c).owner =
        r.model.containingType? c.tree c.owner := v.containingType? r.model c.tree c.owner
    rw [List.map_cons, Resolver.firstStubs, howner, Resolver.firstStubs]
    cases r.model.containingType? c.tree c.owner with
    | none => exact ih seen
    | some t =>
      simp only [ih]
      split <;> rfl

theorem stubGroup_eq (t : TypePath) {c : Candidate} (h : v.ReadsMethod c.tree c.node) :
    (v.resolver r).stubGroup t (v.candidate c) = (r.stubGroup t c).map v.stubGroup := by
  have hname : (v.candidate c).tree.declaredName (v.candidate c).node =
      c.tree.declaredName c.node := h.declaredName
  have hmodifiers : (v.candidate c).tree.modifiers (v.candidate c).node =
      c.tree.modifiers c.node := h.modifiers
  have hreturns : (v.candidate c).tree.returnType (v.candidate c).node =
      c.tree.returnType c.node := h.returnType
  have hfields : ((v.resolver r).model.printableFields t).map FieldEntry.name =
      (r.model.printableFields t).map FieldEntry.name := v.printableFields r.model t
  rw [Resolver.stubGroup, hname, hmodifiers, hreturns, hfields, Resolver.stubGroup]
  cases c.tree.declaredName c.node with
  | error fault => rfl
  | ok name =>
    cases c.tree.modifiers c.node with
    | error fault => rfl
    | ok modifiers => cases c.tree.returnType c.node <;> rfl

end

section

variable (s : Settings) (m : Model)

theorem fieldsItem (stem : TypePath → String)
    (group : TypePath × List (ResolvedField TypePath)) :
    PrintGen.fieldsItem s (v.model m) stem group = PrintGen.fieldsItem s m stem group := by
  have hplace := v.nestedType group.1 (m.declarationsOf group.1) "Printable methods" none
  rw [PrintGen.fieldsItem, methodsFragment, v.header, v.declarationsOf]
  exact congrArg (Prod.mk _) hplace

theorem stubItem (stem : TypePath → String) (g : StubGroup TypePath) :
    PrintGen.stubItem s (v.model m) stem (v.stubGroup g) = PrintGen.stubItem s m stem g := by
  have hplace := v.nestedType g.owner (m.declarationsOf g.owner) (g.methodName ++ "()") g.site
  rw [PrintGen.stubItem, stubFragment, v.header, v.declarationsOf]
  exact congrArg (Prod.mk _) hplace

theorem itemsOf (fields : List (ResolvedField TypePath)) (stubs : List (StubGroup TypePath)) :
    PrintGen.itemsOf s (v.model m) fields (stubs.map v.stubGroup) =
      PrintGen.itemsOf s m fields stubs := by
  have howners : (stubs.map v.stubGroup).map StubGroup.owner = stubs.map StubGroup.owner :=
    List.map_map ..
  have hstem : stemOf fields (stubs.map v.stubGroup) = stemOf fields stubs := by
    funext t
    rw [stemOf, fragmentTypes, howners, stemOf, fragmentTypes]
  rw [PrintGen.itemsOf, PrintGen.itemsOf, hstem, List.map_map]
  refine congrArg₂ (· ++ ·) ?_ ?_
  · exact List.map_congr_left fun group _ => v.fieldsItem s m _ group
  · exact List.map_congr_left fun g _ => v.stubItem s m _ g

end

end Symbols.View

/-- What a pass comes to once the candidates and the resolver are there. -/
def Resolver.outcome (r : Resolver) (s : Settings) (candidates : Candidates) :
    Except Fault Generated := do
  let stubs ← (r.firstStubs [] candidates.stubs).mapM fun stub => r.stubGroup stub.1 stub.2
  (itemsOf s r.model (r.markedAmong candidates.fields) stubs).foldlM (settled s)
    ⟨[Marker.fragment], []⟩

theorem generated_eq_outcome (s : Settings) (trees : List SourceTree) :
    generated s trees = (scan trees s.stubName.string? >>= fun candidates =>
      Resolver.found trees >>= fun r => r.outcome s candidates) :=
  rfl

/-- **A pass comes to the same from what a view shows,** as long as the stubs say the same. -/
theorem Symbols.View.outcome (v : View) (r : Resolver) (s : Settings) {candidates : Candidates}
    (h : ∀ c ∈ candidates.stubs, v.ReadsMethod c.tree c.node) :
    (v.resolver r).outcome s (v.candidates candidates) = r.outcome s candidates := by
  have hstubs : ((v.resolver r).firstStubs [] (v.candidates candidates).stubs).mapM
        (fun stub => (v.resolver r).stubGroup stub.1 stub.2) =
      ((r.firstStubs [] candidates.stubs).mapM fun stub => r.stubGroup stub.1 stub.2).map
        (List.map v.stubGroup) := by
    rw [View.candidates, v.firstStubs, List.mapM_map, ← mapM_view]
    refine mapM_congr_mem fun stub hs => ?_
    exact v.stubGroup_eq r stub.1 (h stub.2 (r.firstStubs_mem hs).1)
  have hfields : (v.resolver r).markedAmong (v.candidates candidates).fields =
      r.markedAmong candidates.fields := v.markedAmong r candidates.fields
  rw [Resolver.outcome, hstubs, except_map_bind, hfields, Resolver.outcome]
  refine except_bind_congr fun stubs _ => ?_
  rw [View.resolver, v.itemsOf]

end PrintGen
