import PrintGen.Proofs.Growth
import PrintGen.Symbols.Model
import Mathlib.Data.List.Nodup

/-!
# Chains of base classes

The walk along base classes stops after a number of types. A chain that leaves the compilation at
all passes no type twice, so it leaves within as many types as there are: a larger number changes
nothing.
-/

namespace PrintGen.Symbols

section

variable {ι : Type} {lineage : ι → Option (Lineage ι)} {t : ι}

theorem leavesWithin_succ_iff {n : Nat} : leavesWithin lineage (n + 1) t = true ↔
    ∃ l, lineage t = some l ∧ l.kind = .classType ∧
      (l.external = true ∨ ∃ base, l.base = some base ∧ leavesWithin lineage n base = true) := by
  rw [leavesWithin]
  cases lineage t with
  | none => simp
  | some l =>
    obtain ⟨kind, base, external⟩ := l
    by_cases hk : kind = .classType
    · cases external <;> cases base <;> simp [hk]
    · simp [hk]

theorem leavesWithin_mono {n m : Nat} (hle : n ≤ m) (h : leavesWithin lineage n t = true) :
    leavesWithin lineage m t = true := by
  induction n generalizing m t with
  | zero => cases h
  | succ n ih =>
    obtain ⟨m, rfl⟩ := Nat.exists_eq_add_of_le' (show 1 ≤ m by omega)
    rw [leavesWithin_succ_iff] at h ⊢
    obtain ⟨l, hl, hk, hleaves | ⟨base, hb, hrest⟩⟩ := h
    · exact ⟨l, hl, hk, .inl hleaves⟩
    · exact ⟨l, hl, hk, .inr ⟨base, hb, ih (by omega) hrest⟩⟩

/-- A chain that needs a number of types passes that many different ones. -/
theorem exists_chain {n : Nat} (h : leavesWithin lineage (n + 1) t = true)
    (hless : leavesWithin lineage n t = false) :
    ∃ chain : List ι, chain.Nodup ∧ chain.length = n + 1 ∧
      ∀ u ∈ chain, leavesWithin lineage (n + 1) u = true := by
  induction n generalizing t with
  | zero => exact ⟨[t], List.nodup_singleton t, rfl, by simpa using h⟩
  | succ n ih =>
    obtain ⟨l, hl, hk, hleaves | ⟨base, hb, hrest⟩⟩ := leavesWithin_succ_iff.mp h
    · have hsooner : leavesWithin lineage (n + 1) t = true :=
        leavesWithin_succ_iff.mpr ⟨l, hl, hk, .inl hleaves⟩
      rw [hsooner] at hless
      cases hless
    · have hbase : leavesWithin lineage n base = false := by
        rw [← Bool.not_eq_true]
        intro hsooner
        have hself : leavesWithin lineage (n + 1) t = true :=
          leavesWithin_succ_iff.mpr ⟨l, hl, hk, .inr ⟨base, hb, hsooner⟩⟩
        rw [hself] at hless
        cases hless
      obtain ⟨chain, hnodup, hlength, hall⟩ := ih hrest hbase
      -- The types further up need one type less, so none of them is the first one.
      have hnew : t ∉ chain := by
        intro hmem
        rw [hall t hmem] at hless
        cases hless
      refine ⟨t :: chain, List.nodup_cons.mpr ⟨hnew, hnodup⟩, by rw [List.length_cons, hlength], ?_⟩
      rw [List.forall_mem_cons]
      exact ⟨h, fun u hu => leavesWithin_mono (by omega) (hall u hu)⟩

/-- **If a chain leaves at all, it leaves within as many types as there are.** -/
theorem leavesWithin_enough {types : List ι} (hall : ∀ u, (lineage u).isSome = true → u ∈ types)
    {n : Nat} (h : leavesWithin lineage n t = true) :
    leavesWithin lineage types.length t = true := by
  induction n with
  | zero => cases h
  | succ n ih =>
    by_cases hless : leavesWithin lineage n t = true
    · exact ih hless
    · rw [Bool.not_eq_true] at hless
      obtain ⟨chain, hnodup, hlength, hleaves⟩ := exists_chain h hless
      have hsub : chain ⊆ types := by
        intro u hu
        obtain ⟨l, hl, -⟩ := leavesWithin_succ_iff.mp (hleaves u hu)
        exact hall u (by rw [hl]; rfl)
      have hle := hnodup.length_le_of_subset hsub
      exact leavesWithin_mono (by omega) h

/-- Chains do not notice what lies elsewhere. -/
theorem leavesWithin_congr {other : ι → Option (Lineage ι)} {p : ι → Prop}
    (hsame : ∀ u, p u → other u = lineage u)
    (hclosed : ∀ u l base, p u → lineage u = some l → l.base = some base → p base)
    (n : Nat) (ht : p t) : leavesWithin other n t = leavesWithin lineage n t := by
  induction n generalizing t with
  | zero => rfl
  | succ n ih =>
    rw [Bool.eq_iff_iff, leavesWithin_succ_iff, leavesWithin_succ_iff, hsame t ht]
    refine exists_congr fun l => and_congr_right fun hl => and_congr_right fun _ => ?_
    refine or_congr_right (exists_congr fun base => and_congr_right fun hb => ?_)
    rw [ih (hclosed t l base ht hl hb)]

end

/-- **An attribute class is a type from which some chain leaves the compilation,** however long. -/
theorem isAttributeClass_iff {table : Table} {bases : List (TypePath × Option TypePath)}
    {t : TypePath} : isAttributeClass table bases t = true ↔
      ∃ n, leavesWithin (lineageIn table bases) n t = true := by
  refine ⟨fun h => ⟨_, h⟩, ?_⟩
  rintro ⟨n, h⟩
  have hall : ∀ u, (lineageIn table bases u).isSome = true → u ∈ table.paths := by
    intro u hu
    rw [lineageIn, Option.isSome_map, ← Table.hasType_eq_isSome] at hu
    exact (Table.hasType_iff_mem table u).mp hu
  have henough := leavesWithin_enough hall h
  rw [Table.paths, List.length_map] at henough
  exact leavesWithin_mono (Nat.le_succ _) henough

end PrintGen.Symbols
