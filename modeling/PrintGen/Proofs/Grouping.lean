import PrintGen.Group
import Mathlib.Data.List.Induction
import Mathlib.Data.List.Nodup

/-!
# Groups and stems as lists

The groups of marked fields are the owners, each once and in order of their first field, with all
their marked fields in order. A type has a stem as soon as it was handed in, and the stem depends
only on which types were handed in.
-/

namespace PrintGen

section

variable {ι : Type} [DecidableEq ι]

theorem eraseDups_concat (as : List ι) (a : ι) :
    (as ++ [a]).eraseDups = if a ∈ as then as.eraseDups else as.eraseDups ++ [a] := by
  rw [List.eraseDups_append]
  by_cases h : a ∈ as
  · simp [h, List.removeAll]
  · simp [h, List.removeAll, List.eraseDups_cons]

theorem nodup_eraseDups (as : List ι) : as.eraseDups.Nodup := by
  induction as using List.reverseRecOn with
  | nil => exact List.nodup_nil
  | append_singleton as a ih =>
    rw [eraseDups_concat]
    split
    · exact ih
    · rename_i h
      refine ih.append (List.nodup_singleton a) ?_
      rw [List.disjoint_singleton, List.mem_eraseDups]
      exact h

theorem eraseDups_perm {as bs : List ι} (h : ∀ a, a ∈ as ↔ a ∈ bs) :
    as.eraseDups.Perm bs.eraseDups := by
  rw [List.perm_ext_iff_of_nodup (nodup_eraseDups as) (nodup_eraseDups bs)]
  intro a
  rw [List.mem_eraseDups, List.mem_eraseDups, h]

/-! ## Groups -/

/-- Adding a field to groups that are listed by owner. -/
theorem addToGroup_map (f : ResolvedField ι) (owners : List ι) (h : owners.Nodup)
    (group : ι → List (ResolvedField ι)) :
    addToGroup f (owners.map fun t => (t, group t)) =
      if f.owner ∈ owners then
        owners.map fun t => (t, if t = f.owner then group t ++ [f] else group t)
      else (owners.map fun t => (t, group t)) ++ [(f.owner, [f])] := by
  induction owners with
  | nil => rfl
  | cons t rest ih =>
    obtain ⟨hnot, hrest⟩ := List.nodup_cons.mp h
    rw [List.map_cons, addToGroup]
    by_cases ht : t = f.owner
    · have hothers : ∀ u ∈ rest, u ≠ f.owner := fun u hu he => hnot (ht ▸ he ▸ hu)
      rw [if_pos ht, if_pos (by simp [ht]), List.map_cons, if_pos ht]
      congr 1
      apply List.map_congr_left
      intro u hu
      rw [if_neg (hothers u hu)]
    · rw [if_neg ht, ih hrest]
      by_cases hmem : f.owner ∈ rest
      · rw [if_pos hmem, if_pos (by simp [hmem]), List.map_cons, if_neg ht]
      · have hne : ¬ f.owner = t := fun he => ht he.symm
        rw [if_neg hmem, if_neg (by simp [hmem, hne]), List.cons_append]

/-- The owners of the marked fields, in order of their first field. -/
def groupOwners (fields : List (ResolvedField ι)) : List ι :=
  ((fields.filter ResolvedField.marked).map ResolvedField.owner).eraseDups

/-- The marked fields of an owner. -/
def groupOf (fields : List (ResolvedField ι)) (t : ι) : List (ResolvedField ι) :=
  (fields.filter ResolvedField.marked).filter fun f => f.owner = t

theorem mem_groupOwners {fields : List (ResolvedField ι)} {t : ι} :
    t ∈ groupOwners fields ↔ ∃ f ∈ fields, f.marked = true ∧ f.owner = t := by
  simp only [groupOwners, List.mem_eraseDups, List.mem_map, List.mem_filter, and_assoc]

theorem mem_groupOf {fields : List (ResolvedField ι)} {t : ι} {f : ResolvedField ι} :
    f ∈ groupOf fields t ↔ f ∈ fields ∧ f.marked = true ∧ f.owner = t := by
  simp only [groupOf, List.mem_filter, decide_eq_true_eq, and_assoc]

/-- An owner without marked fields has an empty group. -/
theorem groupOf_eq_nil_iff {fields : List (ResolvedField ι)} {t : ι} :
    groupOf fields t = [] ↔ t ∉ groupOwners fields := by
  simp only [List.eq_nil_iff_forall_not_mem, mem_groupOf, mem_groupOwners, not_exists]

theorem mem_groupOwners_append {fields more : List (ResolvedField ι)} {t : ι} :
    t ∈ groupOwners (fields ++ more) ↔ t ∈ groupOwners fields ∨ t ∈ groupOwners more := by
  simp only [groupOwners, List.mem_eraseDups, List.filter_append, List.map_append, List.mem_append]

/-- A last field brings a new owner if it is the first marked field of its owner. -/
theorem groupOwners_concat (fields : List (ResolvedField ι)) (f : ResolvedField ι) :
    groupOwners (fields ++ [f]) =
      if f.marked = true ∧ f.owner ∉ groupOwners fields then groupOwners fields ++ [f.owner]
      else groupOwners fields := by
  cases hm : f.marked with
  | false => simp [groupOwners, hm]
  | true =>
    have hmarked : (fields ++ [f]).filter ResolvedField.marked =
        fields.filter ResolvedField.marked ++ [f] := by
      simp [hm]
    rw [groupOwners, hmarked, List.map_append, List.map_singleton, eraseDups_concat]
    simp only [groupOwners, List.mem_eraseDups, true_and, ite_not]

/-- A last field comes last in the group of its owner. -/
theorem groupOf_concat (fields : List (ResolvedField ι)) (f : ResolvedField ι) (t : ι) :
    groupOf (fields ++ [f]) t =
      if f.marked = true ∧ t = f.owner then groupOf fields t ++ [f] else groupOf fields t := by
  rw [groupOf, List.filter_append, List.filter_append, groupOf]
  cases hm : f.marked with
  | false => simp [hm]
  | true =>
    by_cases ht : t = f.owner
    · simp [hm, ht]
    · simp [hm, ht, Ne.symm ht]

theorem groupByOwner_concat (fields : List (ResolvedField ι)) (f : ResolvedField ι) :
    groupByOwner (fields ++ [f]) =
      if f.marked = true then addToGroup f (groupByOwner fields) else groupByOwner fields := by
  rw [groupByOwner, List.foldl_append, List.foldl_cons, List.foldl_nil, ← groupByOwner]

theorem groupByOwner_eq (fields : List (ResolvedField ι)) :
    groupByOwner fields = (groupOwners fields).map fun t => (t, groupOf fields t) := by
  induction fields using List.reverseRecOn with
  | nil => rfl
  | append_singleton fields f ih =>
    rw [groupByOwner_concat, ih, groupOwners_concat]
    simp only [groupOf_concat]
    by_cases hm : f.marked = true
    · rw [if_pos hm, addToGroup_map f (groupOwners fields) (nodup_eraseDups _)]
      by_cases hmem : f.owner ∈ groupOwners fields
      · simp only [hm, hmem, not_true_eq_false, and_false, true_and, if_true, if_false]
      · have hothers : ∀ t ∈ groupOwners fields, t ≠ f.owner := fun t ht he => hmem (he ▸ ht)
        have hnone : groupOf fields f.owner = [] := groupOf_eq_nil_iff.mpr hmem
        rw [if_neg hmem, if_pos ⟨hm, hmem⟩, List.map_append, List.map_singleton,
          if_pos ⟨hm, rfl⟩, hnone, List.nil_append]
        congr 1
        apply List.map_congr_left
        intro t ht
        rw [if_neg fun h => hothers t ht h.2]
    · simp [hm]

theorem groupByOwner_owners (fields : List (ResolvedField ι)) :
    (groupByOwner fields).map Prod.fst = groupOwners fields := by
  rw [groupByOwner_eq, List.map_map]
  exact List.map_id _

theorem mem_groupByOwner {fields : List (ResolvedField ι)}
    {group : ι × List (ResolvedField ι)} :
    group ∈ groupByOwner fields ↔
      group.1 ∈ groupOwners fields ∧ group.2 = groupOf fields group.1 := by
  rw [groupByOwner_eq, List.mem_map]
  constructor
  · rintro ⟨t, ht, rfl⟩
    exact ⟨ht, rfl⟩
  · rintro ⟨ht, hgroup⟩
    exact ⟨group.1, ht, by rw [← hgroup]⟩

theorem addToGroup_append {f : ResolvedField ι} {groups : List (ι × List (ResolvedField ι))}
    (h : ∀ g ∈ groups, g.1 ≠ f.owner) (more : List (ι × List (ResolvedField ι))) :
    addToGroup f (groups ++ more) = groups ++ addToGroup f more := by
  induction groups with
  | nil => rfl
  | cons g rest ih =>
    obtain ⟨hg, hrest⟩ := List.forall_mem_cons.mp h
    obtain ⟨owner, fs⟩ := g
    rw [List.cons_append, addToGroup, if_neg hg, ih hrest]
    rfl

/-- Fields of other owners are grouped on their own. -/
theorem groupByOwner_append {fields more : List (ResolvedField ι)}
    (h : ∀ f ∈ more, f.owner ∉ groupOwners fields) :
    groupByOwner (fields ++ more) = groupByOwner fields ++ groupByOwner more := by
  have hgroups : ∀ f ∈ more, ∀ g ∈ groupByOwner fields, g.1 ≠ f.owner := by
    intro f hf g hg he
    exact h f hf (he ▸ (mem_groupByOwner.mp hg).1)
  have hfold : ∀ rest, more.foldl (fun groups f => if f.marked then addToGroup f groups else groups)
      (groupByOwner fields ++ rest) = groupByOwner fields ++
        more.foldl (fun groups f => if f.marked then addToGroup f groups else groups) rest := by
    clear h
    induction more with
    | nil => exact fun rest => rfl
    | cons f later ih =>
      intro rest
      obtain ⟨hf, hlater⟩ := List.forall_mem_cons.mp hgroups
      rw [List.foldl_cons, List.foldl_cons, ← ih hlater]
      cases f.marked with
      | false => rfl
      | true => rw [if_pos rfl, if_pos rfl, addToGroup_append hf]
  have hall := hfold []
  rw [List.append_nil] at hall
  rw [groupByOwner, List.foldl_append]
  exact hall

/-! ## Stems -/

/-- The stem of a type among the types that were handed in. -/
def stemAmong (name metadataName : ι → String) (types : List ι) (t : ι) : String :=
  if types.eraseDups.countP (fun u => name u = name t) = 1 then name t else metadataName t

/-- The stem of a type depends only on which types of its name were handed in. -/
theorem stemAmong_congr_name (name metadataName : ι → String) {types others : List ι} {t : ι}
    (h : ∀ u, name u = name t → (u ∈ types ↔ u ∈ others)) :
    stemAmong name metadataName types t = stemAmong name metadataName others t := by
  have hperm : (types.eraseDups.filter fun u => name u = name t).Perm
      (others.eraseDups.filter fun u => name u = name t) := by
    rw [List.perm_ext_iff_of_nodup ((nodup_eraseDups types).filter _)
      ((nodup_eraseDups others).filter _)]
    intro u
    simp only [List.mem_filter, List.mem_eraseDups, decide_eq_true_eq]
    exact and_congr_left (h u)
  rw [stemAmong, stemAmong, List.countP_eq_length_filter, List.countP_eq_length_filter,
    hperm.length_eq]

/-- Stems depend only on which types were handed in. -/
theorem stemAmong_congr (name metadataName : ι → String) {types others : List ι}
    (h : ∀ t, t ∈ types ↔ t ∈ others) :
    stemAmong name metadataName types = stemAmong name metadataName others :=
  funext fun _ => stemAmong_congr_name name metadataName fun u _ => h u

theorem lookup_map_self {β : Type} (f : ι → β) (types : List ι) (t : ι) :
    (types.map fun u => (u, f u)).lookup t = if t ∈ types then some (f t) else none := by
  induction types with
  | nil => rfl
  | cons u rest ih =>
    rw [List.map_cons, List.lookup_cons]
    by_cases h : t = u
    · simp [h]
    · have hb : (t == u) = false := by simpa using h
      simp only [hb, ih, List.mem_cons, h, false_or]

theorem keyStems_lookup (name metadataName : ι → String) (types : List ι) (t : ι) :
    (keyStems name metadataName types).lookup t =
      if t ∈ types then some (stemAmong name metadataName types t) else none := by
  rw [keyStems, lookup_map_self (fun u =>
    if types.eraseDups.countP (fun v => name v = name u) = 1 then name u else metadataName u)]
  simp only [List.mem_eraseDups]
  rfl

end

end PrintGen
