import PrintGen.Proofs.PairedBinding
import PrintGen.Proofs.Twins

/-!
# Names of trees that correspond

In tables that correspond, a name that sees no lost directive is bound to the same type on both
sides. If no directive is lost, the whole tables are bound to the same.
-/

namespace PrintGen.Symbols

open Syntax

variable {p : Pairing} {lost : Using → Prop}

theorem MarkTwin.eq_iff (hp : p.OneToOne) {a a' b b' : Mark} (ha : MarkTwin p a a')
    (hb : MarkTwin p b b') : a = b ↔ a' = b' := by
  have htree : a.tree = b.tree ↔ a'.tree = b'.tree := Relator.rel_eq hp.ids ha.tree hb.tree
  have hrank : a.rank = b.rank ↔ a'.rank = b'.rank := by rw [ha.rank, hb.rank]
  cases a
  cases a'
  cases b
  cases b'
  rw [Mark.mk.injEq, Mark.mk.injEq]
  exact and_congr htree hrank

variable (lost) in
/-- No lost directive is seen from a scope: it is on none of the levels, and not global. -/
def Spared (scope : Scope) : Prop :=
  ∀ u, lost u → u.frame ≠ none ∧ ∀ frame ∈ scope, u.frame ≠ some frame.mark

/-- Directives that are chosen by their level are paired, if no lost one is chosen. -/
theorem Thinned.filter_frame {us vs : List Using} (h : Thinned lost (UsingTwin p) us vs)
    (chosen chosen' : Option Mark → Bool)
    (hc : ∀ f f', Option.Rel (MarkTwin p) f f' → chosen' f' = chosen f)
    (hl : ∀ u, lost u → chosen u.frame = false) :
    List.Forall₂ (UsingTwin p) (us.filter fun u => chosen u.frame)
      (vs.filter fun v => chosen' v.frame) := by
  induction h with
  | nil => exact .nil
  | @keep u v us vs hu _ ih =>
    rw [List.filter_cons, List.filter_cons, hc _ _ hu.frame]
    split
    · exact .cons hu ih
    · exact ih
  | lose hu _ ih =>
    rw [List.filter_cons, hl _ hu]
    exact ih

namespace Twin

variable {table other : Table} (h : Twin p lost table other)

include h

theorem sameSymbols : SameSymbols table other fun _ => True := by
  refine ⟨h.hasNamespace, fun c s _ => ?_⟩
  cases c with
  | ofNamespace n => simp only [Table.memberType?, Table.type?, h.hasType]
  | ofType t => simp only [Table.memberType?, Table.type?, h.hasType]

/-- Paired directives have the same target, or fail in the same way. -/
theorem sameDirective {u v : Using} (hu : UsingTwin p u v) : SameDirective table other u v := by
  refine ⟨hu.aliasName, hu.isStatic, fun scope => ?_⟩
  have htarget : ∀ name, usingTarget? other scope name = usingTarget? table scope name :=
    fun name => h.sameSymbols.usingTarget (fun _ _ => trivial) scope
  rw [Table.readTarget, Table.readTarget, hu.target.name]
  simp only [htarget]
  have htext := hu.target.text
  generalize u.tree.text u.target = x at htext ⊢
  generalize v.tree.text v.target = y at htext ⊢
  cases htext with
  | ok => rfl
  | error fault => rfl

theorem usingsOf (hp : p.OneToOne) {f f' : Frame} (hf : FrameTwin p f f')
    (hl : ∀ u, lost u → u.frame ≠ none ∧ u.frame ≠ some f.mark) :
    List.Forall₂ (UsingTwin p) (table.usingsOf f) (other.usingsOf f') := by
  refine List.rel_append ?_ ?_
  · refine h.usings.filter_frame (fun m => m = some f.mark) (fun m => m = some f'.mark)
      (fun m m' hm => ?_) fun u hu => decide_eq_false (hl u hu).2
    cases hm with
    | none => rfl
    | some hm => simp only [Option.some.injEq, hm.eq_iff hp hf.mark]
  · rw [hf.isFile]
    split
    · refine h.usings.filter_frame (fun m => m = none) (fun m => m = none) (fun m m' hm => ?_)
        fun u hu => decide_eq_false (hl u hu).1
      cases hm with
      | none => rfl
      | some => rfl
    · exact .nil

theorem sameLevels (hp : p.OneToOne) {scope scope' : Scope} (hs : ScopeTwin p scope scope')
    (hl : Spared lost scope) : SameLevels table other scope scope' := by
  induction hs with
  | nil => exact .nil
  | @cons f _ _ _ hf _ ih =>
    have hframe : ∀ u, lost u → u.frame ≠ none ∧ u.frame ≠ some f.mark :=
      fun u hu => ⟨(hl u hu).1, (hl u hu).2 f List.mem_cons_self⟩
    have houter := ih fun u hu =>
      ⟨(hl u hu).1, fun frame hm => (hl u hu).2 frame (List.mem_cons_of_mem _ hm)⟩
    exact .cons hf.home hf.isFile ((h.usingsOf hp hf hframe).imp fun _ _ hu => h.sameDirective hu)
      houter

theorem corresponds (hp : p.OneToOne) {r r' : Reference} (hr : ReferenceTwin p r r')
    (hl : Spared lost r.scope) : Corresponds table other r r' :=
  ⟨hr.name, h.sameLevels hp hr.scope hl, hr.within⟩

theorem attributes : List.Forall₂ (ReferenceTwin p) table.attributes other.attributes := by
  have hfields := h.fields
  rw [Table.attributes, Table.attributes]
  generalize table.fields = fs at hfields ⊢
  generalize other.fields = fs' at hfields ⊢
  induction hfields with
  | nil => exact .nil
  | cons hf _ ih =>
    rw [List.flatMap_cons, List.flatMap_cons]
    exact List.rel_append hf.attributes ih

theorem classes_eq {bases others : List (TypePath × Option TypePath)}
    (hb : ∀ t, others.lookup t = bases.lookup t) :
    isAttributeClass other others = isAttributeClass table bases :=
  isAttributeClass_eq h.kindOf? h.types.length_eq.symm hb

section

variable (hp : p.OneToOne) {trees others : List SourceTree} (hd : DeclaresTrees trees .empty table)
  (hd' : DeclaresTrees others .empty other)

include hp hd hd'

/-- **A base that no lost directive is seen from is bound to the same type.** -/
theorem bindType_alone {b b' : BaseReference} (hb : b ∈ table.bases) (hb' : b' ∈ other.bases)
    (hr : ReferenceTwin p b.name b'.name) (hl : Spared lost b.name.scope) :
    alone (bindType other b'.name) = alone (bindType table b.name) := by
  obtain ⟨registered, ha⟩ := hd.settled settled_empty
  obtain ⟨registered', ha'⟩ := hd'.settled settled_empty
  have hside : SideBySide table other (fun _ => True) registered registered' :=
    ⟨h.sameSymbols, ha.toScoped, ha'.toScoped⟩
  exact alone_eq_of_agree (hside.bindType (h.corresponds hp hr hl) (ha.bases b hb)
    (ha'.bases b' hb') fun _ _ _ _ => ⟨trivial, trivial⟩)

/-- **An attribute that no lost directive is seen from is bound to the same class.** -/
theorem bindAttribute_alone (counts : TypePath → Bool) {f f' : FieldEntry} (hf : f ∈ table.fields)
    (hf' : f' ∈ other.fields) {r r' : Reference} (hm : r ∈ f.attributes) (hm' : r' ∈ f'.attributes)
    (hr : ReferenceTwin p r r') (hl : Spared lost r.scope) :
    alone (bindAttribute other counts r') = alone (bindAttribute table counts r) := by
  obtain ⟨registered, ha⟩ := hd.settled settled_empty
  obtain ⟨registered', ha'⟩ := hd'.settled settled_empty
  have hside : SideBySide table other (fun _ => True) registered registered' :=
    ⟨h.sameSymbols, ha.toScoped, ha'.toScoped⟩
  exact alone_eq_of_agree (hside.bindAttribute
    (fun s => h.sameSymbols.sameMembers trivial counts) (h.corresponds hp hr hl)
    (ha.attributes f hf r hm) (ha'.attributes f' hf' r' hm') fun _ _ _ _ => trivial)

/-- **If no directive is lost, both tables are bound to the same.** -/
theorem bindTable (hnone : ∀ u, ¬ lost u) :
    (bindTable other).model.bases = (bindTable table).model.bases ∧
      (bindTable other).model.classes = (bindTable table).model.classes ∧
      (bindTable other).fault = (bindTable table).fault := by
  obtain ⟨registered, ha⟩ := hd.settled settled_empty
  obtain ⟨registered', ha'⟩ := hd'.settled settled_empty
  have hspared : ∀ scope, Spared lost scope := fun _ u hu => absurd hu (hnone u)
  have hpair : TablePair table other (fun _ => True) registered registered' := {
    toSameSymbols := h.sameSymbols
    levels := ha.toScoped
    levels_other := ha'.toScoped
    bases := h.bases.imp fun b b' hb => ⟨hb.1, h.corresponds hp hb.2 (hspared _)⟩
    attributes := h.attributes.imp fun r r' hr => h.corresponds hp hr (hspared _)
    baseScopes := ha.bases
    baseScopes_other := ha'.bases
    attributeScopes r hr := by
      obtain ⟨f, hf, hmem⟩ := List.mem_flatMap.mp hr
      exact ha.attributes f hf r hmem
    attributeScopes_other r hr := by
      obtain ⟨f, hf, hmem⟩ := List.mem_flatMap.mp hr
      exact ha'.attributes f hf r hmem
    baseNames _ _ _ _ _ _ := ⟨trivial, trivial⟩
    attributeNames _ _ _ _ _ _ := trivial
    classes _ := h.classes_eq fun _ => rfl
    classMembers _ s := h.sameSymbols.sameMembers trivial _ }
  exact hpair.bindTable

end

end Twin

end PrintGen.Symbols
