import PrintGen.Proofs.AttributeNames
import PrintGen.Proofs.BaseChains
import PrintGen.Proofs.KeptDeclarations

/-!
# Attribute classes

A type has a base in the compilation, a base outside of it, or none: the first declaration that
names a base decides, and it is bound once. Following the bases of a type either leaves the
compilation, ends, or comes back to a type that was passed before. Exactly in the first case, and
with nothing but classes on the way, it is an attribute class. The walk that remembers the types
that it has passed and stops at the first one that it meets again gives the same answer.
-/

namespace PrintGen.Symbols

open Syntax (SourceTree TypeKind)

/-! ## One base for each type -/

theorem nodup_zip_keys {α β : Type} {keys : List α} (h : keys.Nodup) (values : List β) :
    ((keys.zip values).map Prod.fst).Nodup := by
  induction keys generalizing values with
  | nil => simp
  | cons k rest ih =>
    obtain ⟨hk, hrest⟩ := List.nodup_cons.mp h
    cases values with
    | nil => simp
    | cons v more =>
      rw [List.zip_cons_cons, List.map_cons, List.nodup_cons]
      refine ⟨fun hmem => hk ?_, ih hrest more⟩
      obtain ⟨p, hp, rfl⟩ := List.mem_map.mp hmem
      exact (List.of_mem_zip hp).1

theorem lookup_eq_some_iff_mem {α β : Type} [BEq α] [LawfulBEq α] {entries : List (α × β)}
    (h : (entries.map Prod.fst).Nodup) {k : α} {v : β} :
    entries.lookup k = some v ↔ (k, v) ∈ entries := by
  rw [List.lookup_eq_some_iff]
  constructor
  · rintro ⟨before, after, rfl, _⟩
    simp
  · intro hmem
    obtain ⟨before, after, rfl⟩ := List.append_of_mem hmem
    refine ⟨before, after, rfl, fun p hp => ?_⟩
    rw [List.map_append, List.map_cons] at h
    rw [bne_iff_ne]
    exact fun he => (List.nodup_append.mp h).2.2 _ (List.mem_map_of_mem hp) _ (by simp) he.symm

/-- The bases that a model has are those of its table, as far as they were bound. -/
theorem build_bases (trees : List SourceTree) : ∃ bound,
    (build trees).model.bases =
      ((declaredTable trees).bases.map BaseReference.type).zip bound := by
  rw [build, declaredTable]
  cases declareTrees trees .empty with
  | error fault table => exact ⟨[], List.zip_nil_right.symm⟩
  | ok u table =>
    obtain ⟨bound, hbound, _⟩ := @bindTable_bases table (fun _ => True) (fun _ _ => True)
      trivial fun b _ => Yields.trivial _
    refine ⟨bound, ?_⟩
    cases hb : (bindTable table).fault <;> simp only [hb, hbound]

theorem build_bases_nodup (trees : List SourceTree) :
    ((build trees).model.bases.map Prod.fst).Nodup := by
  obtain ⟨bound, hbound⟩ := build_bases trees
  obtain ⟨es, hes⟩ := declaredTable_records trees
  rw [hbound, hes]
  exact nodup_zip_keys (Table.empty.after_bases_nodup es List.nodup_nil) bound

/-! ## Following bases -/

namespace Model

variable (m : Model)

/-- What following bases a number of times leads to. -/
def ancestor? : Nat → TypePath → Option TypePath
  | 0, t => some t
  | n + 1, t => (m.baseOf? t).bind (ancestor? n)

/-- Every type that following bases leads to in so many steps is a class. -/
def ClassesUpTo (n : Nat) (t : TypePath) : Prop :=
  ∀ k ≤ n, ∃ u, m.ancestor? k t = some u ∧ m.table.kindOf? u = some .classType

variable {m}

theorem ancestor?_succ {n : Nat} {t u : TypePath} :
    m.ancestor? (n + 1) t = some u ↔ ∃ base, m.baseOf? t = some base ∧
      m.ancestor? n base = some u :=
  Option.bind_eq_some_iff

theorem ancestor?_add (n k : Nat) (t : TypePath) :
    m.ancestor? (n + k) t = (m.ancestor? n t).bind (m.ancestor? k) := by
  induction n generalizing t with
  | zero => rw [Nat.zero_add]; rfl
  | succ n ih =>
    rw [Nat.succ_add, ancestor?, ancestor?, Option.bind_assoc]
    exact congrArg _ (funext ih)

theorem classesUpTo_succ {n : Nat} {t : TypePath} : m.ClassesUpTo (n + 1) t ↔
    m.table.kindOf? t = some .classType ∧
      ∃ base, m.baseOf? t = some base ∧ m.ClassesUpTo n base := by
  constructor
  · intro h
    obtain ⟨u, hu, hkind⟩ := h 0 (Nat.zero_le _)
    cases hu
    obtain ⟨v, hv, _⟩ := h 1 (by omega)
    obtain ⟨base, hbase, _⟩ := ancestor?_succ.mp hv
    refine ⟨hkind, base, hbase, fun k hk => ?_⟩
    obtain ⟨u, hu, hclass⟩ := h (k + 1) (by omega)
    rw [ancestor?, hbase] at hu
    exact ⟨u, hu, hclass⟩
  · rintro ⟨hkind, base, hbase, h⟩ k hk
    cases k with
    | zero => exact ⟨t, rfl, hkind⟩
    | succ k =>
      obtain ⟨u, hu, hclass⟩ := h k (by omega)
      exact ⟨u, ancestor?_succ.mpr ⟨base, hbase, hu⟩, hclass⟩

/-- One step along a chain. -/
theorem leavesWithin_succ {n : Nat} {t : TypePath} :
    leavesWithin (lineageIn m.table m.bases) (n + 1) t = true ↔
      m.table.kindOf? t = some .classType ∧ (m.hasExternalBase t = true ∨
        ∃ base, m.baseOf? t = some base ∧
          leavesWithin (lineageIn m.table m.bases) n base = true) := by
  rw [leavesWithin_succ_iff, lineageIn, Table.kindOf?, hasExternalBase, baseOf?]
  cases m.table.entryOf? t with
  | none => simp
  | some e => simp

/-- A chain that leaves within a number of types leads to a type with a base outside. -/
theorem leavesWithin_iff {n : Nat} {t : TypePath} :
    leavesWithin (lineageIn m.table m.bases) n t = true ↔
      ∃ k < n, ∃ u, m.ancestor? k t = some u ∧ m.hasExternalBase u = true ∧ m.ClassesUpTo k t := by
  induction n generalizing t with
  | zero => simp [leavesWithin]
  | succ n ih =>
    rw [leavesWithin_succ]
    constructor
    · rintro ⟨hkind, hexternal | ⟨base, hbase, hleaves⟩⟩
      · refine ⟨0, Nat.succ_pos n, t, rfl, hexternal, fun k hk => ?_⟩
        rw [Nat.le_zero.mp hk]
        exact ⟨t, rfl, hkind⟩
      · obtain ⟨k, hk, u, hu, hexternal, hclasses⟩ := ih.mp hleaves
        exact ⟨k + 1, by omega, u, ancestor?_succ.mpr ⟨base, hbase, hu⟩, hexternal,
          classesUpTo_succ.mpr ⟨hkind, base, hbase, hclasses⟩⟩
    · rintro ⟨k, hk, u, hu, hexternal, hclasses⟩
      cases k with
      | zero =>
        cases hu
        obtain ⟨v, hv, hkind⟩ := hclasses 0 (Nat.le_refl 0)
        cases hv
        exact ⟨hkind, .inl hexternal⟩
      | succ k =>
        obtain ⟨hkind, base, hbase, hclasses⟩ := classesUpTo_succ.mp hclasses
        rw [ancestor?, hbase] at hu
        exact ⟨hkind, .inr ⟨base, hbase, ih.mpr ⟨k, by omega, u, hu, hexternal, hclasses⟩⟩⟩

/-- **A type is an attribute class exactly if its chain of bases leaves the compilation,** with
nothing but classes on the way. -/
theorem isAttributeClass_iff_leaves {t : TypePath} : m.isAttributeClass t = true ↔
    ∃ n u, m.ancestor? n t = some u ∧ m.hasExternalBase u = true ∧ m.ClassesUpTo n t := by
  rw [isAttributeClass, isAttributeClass_iff]
  constructor
  · rintro ⟨n, h⟩
    obtain ⟨k, _, u, hchain⟩ := leavesWithin_iff.mp h
    exact ⟨k, u, hchain⟩
  · rintro ⟨k, u, hchain⟩
    exact ⟨k + 1, leavesWithin_iff.mpr ⟨k, Nat.lt_succ_self k, u, hchain⟩⟩

/-! ## Chains that come back -/

/-- Following bases around a cycle never ends. -/
theorem ancestor?_cycle {p : Nat} {u : TypePath} (h : m.ancestor? p u = some u) (n : Nat) :
    m.ancestor? (n * p) u = some u := by
  induction n with
  | zero => rw [Nat.zero_mul]; rfl
  | succ n ih => rw [Nat.succ_mul, ancestor?_add, ih, Option.bind_some, h]

theorem base_of_cycle {i p : Nat} {t u : TypePath} (hu : m.ancestor? i t = some u) (hp : 0 < p)
    (hcycle : m.ancestor? p u = some u) {n : Nat} {v : TypePath} (hv : m.ancestor? n t = some v) :
    ∃ base, m.baseOf? v = some base := by
  -- far enough around the cycle there is a type that lies further than this one
  have hfar : m.ancestor? (i + (n + 1) * p) t = some u := by
    rw [ancestor?_add, hu, Option.bind_some, ancestor?_cycle hcycle]
  obtain ⟨k, hk⟩ : ∃ k, i + (n + 1) * p = n + (k + 1) := by
    have hle : n + 1 ≤ (n + 1) * p := Nat.le_mul_of_pos_right _ hp
    exact ⟨i + (n + 1) * p - (n + 1), by omega⟩
  rw [hk, ancestor?_add, hv, Option.bind_some] at hfar
  obtain ⟨base, hbase, _⟩ := ancestor?_succ.mp hfar
  exact ⟨base, hbase⟩

theorem hasExternalBase_of_base {t base : TypePath} (h : m.baseOf? t = some base) :
    m.hasExternalBase t = false := by
  rw [baseOf?] at h
  rw [hasExternalBase, decide_eq_false_iff_not]
  intro hnone
  rw [hnone] at h
  cases h

/-! ## The walk that remembers -/

/-- Whether the base chain of a type leaves the compilation before it comes to a type that was seen
already. -/
def leavesUnseen (m : Model) (seen : List TypePath) (t : TypePath) : Bool :=
  if _h : t ∈ seen ∨ m.table.kindOf? t ≠ some .classType then false
  else if m.hasExternalBase t then true
  else
    match m.baseOf? t with
    | some base => leavesUnseen m (t :: seen) base
    | none => false
termination_by (m.table.paths.filter (· ∉ seen)).length
decreasing_by
  obtain ⟨hseen, hkind⟩ := not_or.mp _h
  have hpath : t ∈ m.table.paths :=
    (Table.hasType_iff_mem _ t).mp ((Table.hasType_iff _ t).mpr ⟨_, not_not.mp hkind⟩)
  have hless : m.table.paths.filter (· ∉ t :: seen) =
      (m.table.paths.filter (· ∉ seen)).filter (· ≠ t) := by
    rw [List.filter_filter]
    simp [List.mem_cons, not_or]
  rw [hless, List.length_filter_lt_length_iff_exists]
  exact ⟨t, by simp [hpath, hseen], by simp⟩

theorem leavesUnseen_iff {seen : List TypePath} {t : TypePath} : m.leavesUnseen seen t = true ↔
    t ∉ seen ∧ m.table.kindOf? t = some .classType ∧ (m.hasExternalBase t = true ∨
      ∃ base, m.baseOf? t = some base ∧ m.leavesUnseen (t :: seen) base = true) := by
  rw [leavesUnseen]
  by_cases hseen : t ∈ seen
  · simp [hseen]
  · by_cases hkind : m.table.kindOf? t = some .classType
    · cases hexternal : m.hasExternalBase t with
      | true => simp [hseen, hkind]
      | false => cases hbase : m.baseOf? t <;> simp [hseen, hkind]
    · simp [hkind]

/-- A chain that leaves is walked to its end: it never comes back to a type from which it would take
longer to leave. -/
theorem leavesUnseen_of_leaves {n : Nat} {seen : List TypePath} {t : TypePath}
    (h : leavesWithin (lineageIn m.table m.bases) (n + 1) t = true)
    (hless : leavesWithin (lineageIn m.table m.bases) n t = false)
    (hseen : ∀ u ∈ seen, leavesWithin (lineageIn m.table m.bases) (n + 1) u = false) :
    m.leavesUnseen seen t = true := by
  induction n generalizing seen t with
  | zero =>
    obtain ⟨hkind, hexternal | ⟨base, _, hleaves⟩⟩ := leavesWithin_succ.mp h
    · exact leavesUnseen_iff.mpr ⟨fun hmem => by simp [hseen t hmem] at h, hkind, .inl hexternal⟩
    · cases hleaves
  | succ n ih =>
    refine leavesUnseen_iff.mpr ⟨fun hmem => by simp [hseen t hmem] at h, ?_⟩
    obtain ⟨hkind, hexternal | ⟨base, hbase, hleaves⟩⟩ := leavesWithin_succ.mp h
    · exact ⟨hkind, .inl hexternal⟩
    · refine ⟨hkind, .inr ⟨base, hbase, ih hleaves ?_ ?_⟩⟩
      · rw [← Bool.not_eq_true] at hless ⊢
        exact fun hsooner => hless (leavesWithin_succ.mpr ⟨hkind, .inr ⟨base, hbase, hsooner⟩⟩)
      · refine List.forall_mem_cons.mpr ⟨hless, fun u hu => ?_⟩
        have hlater := hseen u hu
        rw [← Bool.not_eq_true] at hlater ⊢
        exact fun hsooner => hlater (leavesWithin_mono (Nat.le_succ _) hsooner)

/-- The walk never takes a chain that does not leave. -/
theorem leaves_of_leavesUnseen {seen : List TypePath} {t : TypePath}
    (h : m.leavesUnseen seen t = true) :
    ∃ n, leavesWithin (lineageIn m.table m.bases) n t = true := by
  fun_induction leavesUnseen m seen t with
  | case1 => cases h
  | case2 seen t hno hexternal =>
    exact ⟨1, leavesWithin_succ.mpr ⟨not_not.mp (not_or.mp hno).2, .inl hexternal⟩⟩
  | case3 seen t hno hexternal base hbase ih =>
    obtain ⟨n, hn⟩ := ih h
    exact ⟨n + 1, leavesWithin_succ.mpr ⟨not_not.mp (not_or.mp hno).2, .inr ⟨base, hbase, hn⟩⟩⟩
  | case4 => cases h

/-- **The walk that stops at the first type that it meets again finds every attribute class.** -/
theorem leavesUnseen_nil (m : Model) (t : TypePath) :
    m.leavesUnseen [] t = m.isAttributeClass t := by
  rw [Bool.eq_iff_iff, isAttributeClass, isAttributeClass_iff]
  refine ⟨leaves_of_leavesUnseen, ?_⟩
  rintro ⟨n, h⟩
  induction n with
  | zero => cases h
  | succ n ih =>
    cases hless : leavesWithin (lineageIn m.table m.bases) n t with
    | true => exact ih hless
    | false => exact leavesUnseen_of_leaves h hless (by simp)

end Model

/-- **Attribute classes are exactly the classes whose chain of bases leaves the compilation.** No
type has a base in the compilation and one outside of it. A type is an attribute class exactly if
following its bases some number of times comes to a type with a base outside, with nothing but
classes on the way; the walk that stops at the first type that it meets again finds out. A chain
that runs into a cycle never leaves. -/
theorem attribute_classes_leave (trees : List SourceTree) (t : TypePath) :
    let m := (build trees).model
    (¬ ∃ base, (t, some base) ∈ m.bases ∧ (t, none) ∈ m.bases) ∧
    (∀ base, m.baseOf? t = some base ↔ (t, some base) ∈ m.bases) ∧
    (m.hasExternalBase t = true ↔ (t, none) ∈ m.bases) ∧
    (m.isAttributeClass t = true ↔ ∃ n u, m.ancestor? n t = some u ∧ m.hasExternalBase u = true ∧
      ∀ k ≤ n, ∃ v, m.ancestor? k t = some v ∧ m.table.kindOf? v = some .classType) ∧
    m.isAttributeClass t = m.leavesUnseen [] t ∧
    ∀ i p u, m.ancestor? i t = some u → 0 < p → m.ancestor? p u = some u →
      m.isAttributeClass t = false := by
  intro m
  have hkeys := build_bases_nodup trees
  have hbase : ∀ base, m.baseOf? t = some base ↔ (t, some base) ∈ m.bases := by
    intro base
    rw [← lookup_eq_some_iff_mem hkeys, Model.baseOf?, Option.join_eq_some_iff]
  have hexternal : m.hasExternalBase t = true ↔ (t, none) ∈ m.bases := by
    rw [← lookup_eq_some_iff_mem hkeys, Model.hasExternalBase, decide_eq_true_iff]
  refine ⟨?_, hbase, hexternal, Model.isAttributeClass_iff_leaves, (m.leavesUnseen_nil t).symm, ?_⟩
  · rintro ⟨base, hin, hout⟩
    have hnot := Model.hasExternalBase_of_base ((hbase base).mpr hin)
    rw [hexternal.mpr hout] at hnot
    cases hnot
  · intro i p u hu hp hcycle
    rw [← Bool.not_eq_true, Model.isAttributeClass_iff_leaves]
    rintro ⟨n, v, hv, hleaves, _⟩
    obtain ⟨base, hbase⟩ := Model.base_of_cycle hu hp hcycle hv
    rw [Model.hasExternalBase_of_base hbase] at hleaves
    cases hleaves

namespace Sample

open Syntax (Node)
open Marker (node identifier)

/-- An empty class with a base, each with a name of one letter. -/
def derivedClass (start : Nat) : Node :=
  node (.typeDeclaration .classType) start (start + 15) none [
    identifier (start + 6) (start + 7) (some .name),
    node .baseList (start + 8) (start + 11) none [identifier (start + 10) (start + 11) none],
    node .declarationList (start + 12) (start + 15) (some (.other "body")) []]

/-- Two classes that are derived from each other, one more that is derived from them, and two
classes whose chain leaves. -/
def cyclic : SourceTree :=
  ⟨.source 0, "cyclic.cs",
    ("class A : B \x7b \x7d class B : A \x7b \x7d class C : A \x7b \x7d " ++
      "class D : X \x7b \x7d class E : D \x7b \x7d").toList, false,
    node (.other "compilation_unit") 0 79 none
      [derivedClass 0, derivedClass 16, derivedClass 32, derivedClass 48, derivedClass 64]⟩

end Sample

/-- A class that is derived from a class on a cycle is no attribute class, and one with a base
outside two steps away is. -/
theorem cyclic_bases_of_sample :
    (build [Sample.cyclic]).model.isAttributeClass (.top .global ⟨"C", 0⟩) = false ∧
    (build [Sample.cyclic]).model.isAttributeClass (.top .global ⟨"E", 0⟩) = true := by
  have hfacts : (build [Sample.cyclic]).model.ancestor? 1 (.top .global ⟨"C", 0⟩) =
        some (.top .global ⟨"A", 0⟩) ∧
      (build [Sample.cyclic]).model.ancestor? 2 (.top .global ⟨"A", 0⟩) =
        some (.top .global ⟨"A", 0⟩) ∧
      (build [Sample.cyclic]).model.ancestor? 1 (.top .global ⟨"E", 0⟩) =
        some (.top .global ⟨"D", 0⟩) ∧
      (build [Sample.cyclic]).model.hasExternalBase (.top .global ⟨"D", 0⟩) = true ∧
      (build [Sample.cyclic]).model.table.kindOf? (.top .global ⟨"E", 0⟩) = some .classType ∧
      (build [Sample.cyclic]).model.table.kindOf? (.top .global ⟨"D", 0⟩) = some .classType := by
    decide +kernel
  obtain ⟨hc, ha, he, hd, hkind, hbase⟩ := hfacts
  obtain ⟨_, _, _, _, _, hcycle⟩ := attribute_classes_leave [Sample.cyclic] (.top .global ⟨"C", 0⟩)
  obtain ⟨_, _, _, hleaves, _⟩ := attribute_classes_leave [Sample.cyclic] (.top .global ⟨"E", 0⟩)
  refine ⟨hcycle 1 2 _ hc (by decide) ha, hleaves.mpr ⟨1, _, he, hd, fun k hk => ?_⟩⟩
  rcases Nat.le_one_iff_eq_zero_or_eq_one.mp hk with rfl | rfl
  · exact ⟨_, rfl, hkind⟩
  · exact ⟨_, he, hbase⟩

end PrintGen.Symbols
