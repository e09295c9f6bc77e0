import PrintGen.Proofs.PairedPass
import PrintGen.Proofs.TwinBinding

/-!
# A pass over trees that correspond

Trees that correspond have corresponding candidates. If no directive is lost, a pass over one
list of trees comes to what a pass over the other one comes to: to the same fragments and the same
messages, or to the same fault. Only the places that diagnostics name may be others.
-/

namespace PrintGen

open Syntax Symbols

/-! ## Candidates -/

section

variable {ε α β : Type} {R : α → β → Prop}

/-- Filters that decide alike keep members that correspond. -/
theorem SameResult.filterM {f : α → Except ε Bool} {g : β → Except ε Bool} {as : List α}
    {bs : List β} (h : List.Forall₂ R as bs) (hfg : ∀ a b, R a b → g b = f a) :
    SameResult (List.Forall₂ fun a b => R a b ∧ f a = .ok true) (as.filterM f) (bs.filterM g) := by
  induction h with
  | nil => exact .ok .nil
  | @cons a b as bs hab _ ih =>
    rw [filterM_cons, filterM_cons, hfg _ _ hab]
    cases hf : f a with
    | error fault => exact .error fault
    | ok kept =>
      refine ih.bind fun found found' hfound => .ok ?_
      cases kept with
      | true => exact .cons ⟨hab, hf⟩ hfound
      | false => exact hfound

end

section

variable {p : Pairing} {tree other : SourceTree}

/-- The owners of two nodes declare the same, and they declare types. -/
def OwnerTwin (p : Pairing) (tree other : SourceTree) : Option Node → Option Node → Prop :=
  Option.Rel fun n n' => n.kind.isTypeDeclaration = true ∧ SameDeclaration p tree other n n'

/-- Two visited nodes that declare the same inside owners that do. -/
structure OccurrenceTwin (p : Pairing) (tree other : SourceTree) (o o' : Occurrence) : Prop where
  owner : OwnerTwin p tree other o.owner o'.owner
  node : SameDeclaration p tree other o.node o'.node

mutual

theorem visitsIn_twins : ∀ (node node' : Node) (owner owner' : Option Node),
    NodeTwin p tree other node node' → OwnerTwin p tree other owner owner' →
    List.Forall₂ (OccurrenceTwin p tree other) (node.visitsIn owner) (node'.visitsIn owner')
  | .mk kind named missing start stop label children, node' => by
    intro owner owner' hn ho
    obtain ⟨same, hchildren⟩ := hn
    rw [Node.visitsIn_eq, Node.visitsIn_eq]
    refine .cons ⟨ho, same⟩ (visitsAmong_twins children node'.children _ _ hchildren ?_)
    rw [Node.ownerBelow, Node.ownerBelow, same.kind]
    split
    · rename_i hk
      exact .some ⟨hk, same⟩
    · exact ho

theorem visitsAmong_twins : ∀ (nodes nodes' : List Node) (owner owner' : Option Node),
    List.Forall₂ (NodeTwin p tree other) nodes nodes' → OwnerTwin p tree other owner owner' →
    List.Forall₂ (OccurrenceTwin p tree other) (Node.visitsAmong owner nodes)
      (Node.visitsAmong owner' nodes')
  | [], _ => by
    intro owner owner' hn _
    cases hn
    exact .nil
  | node :: rest, _ => by
    intro owner owner' hn ho
    obtain ⟨node', rest', hnode, hrest, rfl⟩ := List.forall₂_cons_left_iff.mp hn
    rw [Node.visitsAmong, Node.visitsAmong]
    exact List.rel_append (visitsIn_twins node node' owner owner' hnode ho)
      (visitsAmong_twins rest rest' owner owner' hrest ho)

end

/-- Two candidates whose nodes declare the same inside owners that do. -/
structure CandidateTwin (p : Pairing) (c c' : Candidate) : Prop where
  owner : OwnerTwin p c.tree c'.tree c.owner c'.owner
  node : SameDeclaration p c.tree c'.tree c.node c'.node

variable (h : TreeTwin p tree other)

include h

theorem occurrences_twins : List.Forall₂ (OccurrenceTwin p tree other) tree.occurrences
    other.occurrences := by
  rw [SourceTree.occurrences, SourceTree.occurrences, Node.occurrences_eq_visits,
    Node.occurrences_eq_visits]
  exact visitsIn_twins _ _ _ _ h.root .none

/-- Two field declarations that correspond. -/
theorem annotatedFields_twins :
    List.Forall₂ (fun c c' => CandidateTwin p c c' ∧ c.node.kind = .fieldDeclaration)
      tree.annotatedFields other.annotatedFields := by
  rw [SourceTree.annotatedFields, SourceTree.annotatedFields, List.forall₂_map_left_iff,
    List.forall₂_map_right_iff]
  have hsame : ∀ o o', OccurrenceTwin p tree other o o' →
      o'.node.isAnnotatedField = o.node.isAnnotatedField := by
    intro o o' ho
    rw [Node.isAnnotatedField, Node.isAnnotatedField, ho.node.kind, ho.node.hasChild]
  refine forall₂_imp_mem (forall₂_filter (occurrences_twins h) hsame) fun o hmem o' _ ho => ?_
  exact ⟨⟨ho.owner, ho.node⟩, isAnnotatedField_kind (List.mem_filter.mp hmem).2⟩

theorem stubs_twins (stubName : Option String) :
    SameResult (List.Forall₂ fun c c' => CandidateTwin p c c' ∧ c.node.kind = .methodDeclaration)
      (tree.stubs stubName) (other.stubs stubName) := by
  have hsame : ∀ o o', OccurrenceTwin p tree other o o' →
      other.isStub stubName o'.node = tree.isStub stubName o.node := by
    intro o o' ho
    rw [SourceTree.isStub, SourceTree.isStub, ho.node.kind, ho.node.modifiers,
      ho.node.declaredName, ho.node.parameterCount]
  refine (SameResult.filterM (occurrences_twins h) hsame).bind fun found found' hfound => .ok ?_
  rw [List.forall₂_map_left_iff, List.forall₂_map_right_iff]
  refine hfound.imp fun o o' ho => ⟨⟨ho.1.owner, ho.1.node⟩, ?_⟩
  by_contra hk
  rw [SourceTree.isStub, if_neg hk] at ho
  cases ho.2

end

section

variable {p : Pairing}

/-- Candidates that correspond, by what they were found for. -/
structure CandidatesTwin (p : Pairing) (c c' : Candidates) : Prop where
  fields : List.Forall₂ (fun c c' => CandidateTwin p c c' ∧ c.node.kind = .fieldDeclaration)
    c.fields c'.fields
  stubs : List.Forall₂ (fun c c' => CandidateTwin p c c' ∧ c.node.kind = .methodDeclaration)
    c.stubs c'.stubs

theorem scan_twins {trees others : List SourceTree} (h : List.Forall₂ (TreeTwin p) trees others)
    (stubName : Option String) :
    SameResult (CandidatesTwin p) (scan trees stubName) (scan others stubName) := by
  have hstubs := SameResult.mapM (h.imp fun _ _ ht => stubs_twins ht stubName)
  refine hstubs.bind fun found found' hfound => .ok ⟨?_, List.rel_flatten hfound⟩
  exact List.rel_flatMap h fun _ _ ht => annotatedFields_twins ht

/-! ## Models -/

/-- Two fields that correspond, with the same classes of their attributes. -/
def BoundTwin (p : Pairing) (b b' : BoundField) : Prop :=
  FieldTwin p b.field b'.field ∧ b'.classes = b.classes

theorem dealClasses_twins {fields fields' : List FieldEntry}
    (h : List.Forall₂ (FieldTwin p) fields fields') (classes : List (Option TypePath)) :
    List.Forall₂ (BoundTwin p) (dealClasses fields classes) (dealClasses fields' classes) := by
  induction h generalizing classes with
  | nil => exact .nil
  | cons hf _ ih =>
    rw [dealClasses, dealClasses, ← hf.attributes.length_eq]
    exact .cons ⟨hf, rfl⟩ (ih _)

namespace Symbols.Twin

variable {lost : Using → Prop} {m m' : Model} (h : Twin p lost m.table m'.table)

include h

theorem header (t : TypePath) : m'.header t = m.header t := by
  have hentry := h.entryOf? t
  rw [Model.header, Model.header]
  generalize m.table.entryOf? t = e at hentry ⊢
  generalize m'.table.entryOf? t = e' at hentry ⊢
  cases hentry with
  | none => rfl
  | some he => exact congrArg₂ (TypeHeader.mk t) he.kind he.parameters

theorem printableFields (t : TypePath) : (m'.printableFields t).map FieldEntry.name =
    (m.printableFields t).map FieldEntry.name := by
  have hfields : List.Forall₂ (FieldTwin p) (m.printableFields t) (m'.printableFields t) := by
    refine forall₂_filter (forall₂_filter h.fields fun _ _ hf => ?_) fun _ _ hf => ?_
    · rw [hf.owner]
    · rw [hf.nameable, hf.isStatic]
  exact map_eq_of_forall₂ (hfields.imp fun _ _ hf => hf.name)

theorem typeOfNode? (hp : p.OneToOne) {key key' : NodeKey} (hk : p.keys key key') :
    m'.table.typeOfNode? key' = m.table.typeOfNode? key := by
  have hentry := forall₂_find? h.nodes (p := fun e => e.1 = key) (q := fun e => e.1 = key')
    fun e e' he => by
      have hiff : e.1 = key ↔ e'.1 = key' := Relator.rel_eq hp.keys he.1 hk
      rw [decide_eq_decide.mpr hiff]
  rw [Table.typeOfNode?, Table.typeOfNode?]
  generalize (m.table.nodeTypes.find? fun e => e.1 = key) = e at hentry ⊢
  generalize (m'.table.nodeTypes.find? fun e => e.1 = key') = e' at hentry ⊢
  cases hentry with
  | none => rfl
  | some he => exact congrArg some he.2

theorem containingType? (hp : p.OneToOne) {tree other : SourceTree} {owner owner' : Option Node}
    (ho : OwnerTwin p tree other owner owner') :
    m'.containingType? other owner' = m.containingType? tree owner := by
  cases ho with
  | none => rfl
  | some ho => exact h.typeOfNode? hp (ho.2.key (.inl ho.1))

theorem declaredFields (hp : p.OneToOne) (hc : m'.classes = m.classes) {key key' : NodeKey}
    (hk : p.keys key key') :
    List.Forall₂ (BoundTwin p) (m.declaredFields key) (m'.declaredFields key') := by
  rw [Model.declaredFields, Model.declaredFields, Model.fields, Model.fields, hc]
  refine forall₂_filter (dealClasses_twins h.fields m.classes) fun b b' hb => ?_
  have horigin := hb.1.origin
  generalize b.field.origin = o at horigin ⊢
  generalize b'.field.origin = o' at horigin ⊢
  cases horigin with
  | none => rfl
  | @some o o' ho =>
    have hiff : o = key ↔ o' = key' := Relator.rel_eq hp.keys ho hk
    simp only [Option.some.injEq, decide_eq_decide.mpr hiff]

end Symbols.Twin

/-- **Both passes find the same.** -/
theorem Symbols.Twin.pairedPass {lost : Using → Prop} (hp : p.OneToOne) {r r' : Resolver}
    (h : Twin p lost r.model.table r'.model.table) (hc : r'.model.classes = r.model.classes)
    (hm : r'.marker = r.marker) {c c' : Candidates} (hcs : CandidatesTwin p c c') :
    PairedPass (fun d d' => d'.message = d.message) r r' c c' where
  marked := by
    have hdeclared : List.Forall₂ (BoundTwin p)
        (c.fields.flatMap fun c => r.model.declaredFields (c.tree.key c.node))
        (c'.fields.flatMap fun c => r'.model.declaredFields (c.tree.key c.node)) :=
      List.rel_flatMap hcs.fields fun _ _ hf =>
        h.declaredFields hp hc (hf.1.node.key (.inr hf.2))
    have hmarked := forall₂_filter hdeclared (p := r.isMarked) (q := r'.isMarked)
      fun b b' hb => by rw [Resolver.isMarked, Resolver.isMarked, hm, hb.2]
    refine map_eq_of_forall₂ (hmarked.imp fun b b' hb => ?_)
    rw [Resolver.confirmed, Resolver.confirmed, hb.1.owner, hb.1.name]
  places _ _ _ := rfl
  stubs := hcs.stubs.imp fun c c' hs =>
    ⟨h.containingType? hp hs.1.owner, hs.1.node.declaredName, hs.1.node.modifiers,
      hs.1.node.returnType hs.2, fun _ _ _ _ => rfl⟩
  headers := h.header
  printable := h.printableFields

end

/-! ## Passes -/

section

variable {p : Pairing} (hp : p.OneToOne) {trees others : List SourceTree}
  (h : List.Forall₂ (TreeTwin p) (trees ++ [Marker.tree]) (others ++ [Marker.tree]))

include hp h

theorem Resolver.found_twins : SameResult (fun r r' =>
    Twin p (fun _ => False) r.model.table r'.model.table ∧
      r'.model.classes = r.model.classes ∧ r'.marker = r.marker) (found trees) (found others) := by
  have hstart : Twin p (fun _ => False) .empty .empty := twin_empty
  have hrun := declareTrees_tracks hp h .empty .empty hstart
  generalize hx : declareTrees (trees ++ [Marker.tree]) .empty = x at hrun
  generalize hy : declareTrees (others ++ [Marker.tree]) .empty = y at hrun
  cases hrun with
  | error fault table table' =>
    rw [found_stopped hx, found_stopped hy]
    exact .error fault
  | @ok _ _ table table' ht =>
    have hd := declareTrees_iff.mp hx
    have hd' := declareTrees_iff.mp hy
    obtain ⟨-, hclasses, hfault⟩ := ht.bindTable hp hd hd' fun _ => id
    rw [found, found, compiled, compiled, (build_declared hd).1, (build_declared hd').1,
      (build_declared hd).2, (build_declared hd').2, hfault]
    cases (bindTable table).fault with
    | some fault => exact .error fault
    | none =>
      refine .ok ⟨?_, hclasses, rfl⟩
      rw [bindTable_table, bindTable_table]
      exact ht

/-- **Passes over trees that correspond come to the same.** -/
theorem generated_twins (s : Settings) :
    SameResult (SameGenerated fun d d' => d'.message = d.message) (generated s trees)
      (generated s others) := by
  have hlength : trees.length = others.length := by
    simpa using h.length_eq
  rw [generated_eq_outcome, generated_eq_outcome]
  refine (scan_twins (forall₂_append_left hlength h).1 _).bind fun c c' hc => ?_
  refine (Resolver.found_twins hp h).bind fun r r' hr => ?_
  exact (hr.1.pairedPass hp hr.2.1 hr.2.2 hc).outcome s

end

end PrintGen
