import PrintGen.Proofs.Grouping
import PrintGen.Symbols.Path

/-!
# Grouping by owner is a partition

The groups of a list of fields are described without the loop that makes them: which owners have a
group, in which order the groups come and what a group holds. Only one list of groups fits this
description. Grouping loses no marked field, and grouping the fields of the groups once more changes
nothing. Owners are told apart by nothing but their identity.
-/

namespace PrintGen

open Symbols (TypePath)

section

variable {ι : Type} [DecidableEq ι]

/-! ## What the groups of a list of fields are -/

/-- The position of the first marked field of an owner. -/
def firstMarked (fields : List (ResolvedField ι)) (t : ι) : Nat :=
  fields.findIdx fun f => f.marked && f.owner = t

/-- Groups that split the marked fields of a list: one group for each owner of a marked field, in
order of the first such field, with all marked fields of that owner in the order of the list. -/
structure SplitByOwner (fields : List (ResolvedField ι))
    (groups : List (ι × List (ResolvedField ι))) : Prop where
  distinct : (groups.map Prod.fst).Nodup
  owners : ∀ t, t ∈ groups.map Prod.fst ↔ ∃ f ∈ fields, f.marked = true ∧ f.owner = t
  ordered : (groups.map Prod.fst).Pairwise fun t u => firstMarked fields t < firstMarked fields u
  members : ∀ group ∈ groups,
    group.2 = fields.filter fun f => f.marked && f.owner = group.1

theorem groupOf_eq_filter (fields : List (ResolvedField ι)) (t : ι) :
    groupOf fields t = fields.filter fun f => f.marked && f.owner = t := by
  rw [groupOf, List.filter_filter]
  exact List.filter_congr fun f _ => Bool.and_comm _ _

theorem firstMarked_lt_length_iff {fields : List (ResolvedField ι)} {t : ι} :
    firstMarked fields t < fields.length ↔ t ∈ groupOwners fields := by
  rw [firstMarked, List.findIdx_lt_length, mem_groupOwners]
  simp only [Bool.and_eq_true, decide_eq_true_eq]

/-- Later fields do not move the first marked field of an owner. -/
theorem firstMarked_append {fields : List (ResolvedField ι)} {t : ι}
    (ht : t ∈ groupOwners fields) (more : List (ResolvedField ι)) :
    firstMarked (fields ++ more) t = firstMarked fields t := by
  rw [firstMarked, List.findIdx_append]
  exact if_pos (firstMarked_lt_length_iff.mpr ht)

/-- The first field of a new owner comes after all fields before it. -/
theorem length_le_firstMarked {fields : List (ResolvedField ι)} {t : ι}
    (ht : t ∉ groupOwners fields) (more : List (ResolvedField ι)) :
    fields.length ≤ firstMarked (fields ++ more) t := by
  rw [firstMarked, List.findIdx_append]
  rw [← firstMarked_lt_length_iff, firstMarked] at ht
  rw [if_neg ht]
  omega

theorem groupOwners_ordered (fields : List (ResolvedField ι)) :
    (groupOwners fields).Pairwise fun t u => firstMarked fields t < firstMarked fields u := by
  induction fields using List.reverseRecOn with
  | nil => exact List.Pairwise.nil
  | append_singleton fields f ih =>
    -- The owners so far keep their positions, and a new owner comes after them.
    have hkept : (groupOwners fields).Pairwise fun t u =>
        firstMarked (fields ++ [f]) t < firstMarked (fields ++ [f]) u := by
      refine ih.imp_of_mem ?_
      intro t u ht hu hlt
      rw [firstMarked_append ht, firstMarked_append hu]
      exact hlt
    rw [groupOwners_concat]
    split
    · rename_i hnew
      rw [List.pairwise_append]
      refine ⟨hkept, List.pairwise_singleton _ _, ?_⟩
      intro t ht u hu
      obtain rfl := List.mem_singleton.mp hu
      have hbefore := firstMarked_lt_length_iff.mpr ht
      have hafter := length_le_firstMarked hnew.2 [f]
      rw [firstMarked_append ht]
      omega
    · exact hkept

theorem groupByOwner_split (fields : List (ResolvedField ι)) :
    SplitByOwner fields (groupByOwner fields) where
  distinct := by
    rw [groupByOwner_owners]
    exact nodup_eraseDups _
  owners := by
    intro t
    rw [groupByOwner_owners]
    exact mem_groupOwners
  ordered := by
    rw [groupByOwner_owners]
    exact groupOwners_ordered fields
  members := by
    intro group hgroup
    rw [← groupOf_eq_filter]
    exact (mem_groupByOwner.mp hgroup).2

namespace SplitByOwner

variable {fields : List (ResolvedField ι)} {groups others : List (ι × List (ResolvedField ι))}

/-- The owners determine the groups. -/
theorem eq_map (h : SplitByOwner fields groups) :
    groups = (groups.map Prod.fst).map fun t =>
      (t, fields.filter fun f => f.marked && f.owner = t) := by
  rw [List.map_map]
  refine (List.map_id groups).symm.trans (List.map_congr_left ?_)
  intro group hgroup
  exact Prod.ext rfl (h.members group hgroup)

theorem owners_eq (h : SplitByOwner fields groups) (h' : SplitByOwner fields others) :
    groups.map Prod.fst = others.map Prod.fst := by
  have hperm : (groups.map Prod.fst).Perm (others.map Prod.fst) := by
    rw [List.perm_ext_iff_of_nodup h.distinct h'.distinct]
    intro t
    rw [h.owners, h'.owners]
  refine List.Perm.eq_of_pairwise ?_ h.ordered h'.ordered hperm
  intro t u _ _ hlt hgt
  omega

/-- Only one list of groups splits the marked fields of a list. -/
theorem unique (h : SplitByOwner fields groups) (h' : SplitByOwner fields others) :
    groups = others := by
  rw [h.eq_map, h.owners_eq h', ← h'.eq_map]

end SplitByOwner

/-! ## Nothing is lost, and grouping again changes nothing -/

theorem addToGroup_fields (f : ResolvedField ι) (groups : List (ι × List (ResolvedField ι))) :
    ((addToGroup f groups).flatMap Prod.snd).Perm (groups.flatMap Prod.snd ++ [f]) := by
  induction groups with
  | nil => exact List.Perm.refl _
  | cons group rest ih =>
    obtain ⟨owner, fs⟩ := group
    rw [addToGroup]
    split
    · rw [List.flatMap_cons, List.flatMap_cons, List.append_assoc, List.append_assoc]
      exact List.perm_append_comm.append_left fs
    · rw [List.flatMap_cons, List.flatMap_cons, List.append_assoc]
      exact ih.append_left fs

/-- The groups together hold each marked field as often as the list does. -/
theorem groupByOwner_fields (fields : List (ResolvedField ι)) :
    ((groupByOwner fields).flatMap Prod.snd).Perm (fields.filter ResolvedField.marked) := by
  induction fields using List.reverseRecOn with
  | nil => exact List.Perm.refl _
  | append_singleton fields f ih =>
    rw [groupByOwner_concat, List.filter_append]
    by_cases hm : f.marked = true
    · rw [if_pos hm, List.filter_cons_of_pos hm, List.filter_nil]
      exact (addToGroup_fields f _).trans (ih.append_right [f])
    · rw [if_neg hm, List.filter_cons_of_neg hm, List.filter_nil, List.append_nil]
      exact ih

/-- Marked fields of one owner make one group. -/
theorem groupByOwner_single {t : ι} {fs : List (ResolvedField ι)} (hne : fs ≠ [])
    (h : ∀ f ∈ fs, f.marked = true ∧ f.owner = t) : groupByOwner fs = [(t, fs)] := by
  refine (groupByOwner_split fs).unique ⟨List.nodup_singleton t, ?_, List.pairwise_singleton _ _, ?_⟩
  · intro u
    rw [List.map_singleton, List.mem_singleton]
    constructor
    · rintro rfl
      obtain ⟨f, hf⟩ := List.exists_mem_of_ne_nil fs hne
      exact ⟨f, hf, h f hf⟩
    · rintro ⟨f, hf, _, rfl⟩
      exact (h f hf).2
  · intro group hgroup
    obtain rfl := List.mem_singleton.mp hgroup
    refine (List.filter_eq_self.mpr ?_).symm
    intro f hf
    simpa using h f hf

/-- Groups that hold only marked fields of their own owners come back when their fields are grouped
again. -/
theorem groupByOwner_flatMap {groups : List (ι × List (ResolvedField ι))}
    (hdistinct : (groups.map Prod.fst).Nodup) (hne : ∀ group ∈ groups, group.2 ≠ [])
    (hown : ∀ group ∈ groups, ∀ f ∈ group.2, f.marked = true ∧ f.owner = group.1) :
    groupByOwner (groups.flatMap Prod.snd) = groups := by
  induction groups with
  | nil => rfl
  | cons group rest ih =>
    obtain ⟨hgroup, hrest⟩ := List.forall_mem_cons.mp hown
    obtain ⟨hsome, hsomes⟩ := List.forall_mem_cons.mp hne
    rw [List.map_cons, List.nodup_cons] at hdistinct
    have hapart : ∀ f ∈ rest.flatMap Prod.snd, f.owner ∉ groupOwners group.2 := by
      intro f hf howner
      obtain ⟨g, hg, _, hsame⟩ := mem_groupOwners.mp howner
      obtain ⟨other, hother, hmem⟩ := List.mem_flatMap.mp hf
      have hfirst : other.1 = group.1 :=
        (hrest other hother f hmem).2.symm.trans (hsame.symm.trans (hgroup g hg).2)
      exact hdistinct.1 (hfirst ▸ List.mem_map_of_mem hother)
    rw [List.flatMap_cons, groupByOwner_append hapart, groupByOwner_single hsome hgroup,
      ih hdistinct.2 hsomes hrest]
    rfl

theorem ne_nil_of_mem_groupByOwner {fields : List (ResolvedField ι)}
    {group : ι × List (ResolvedField ι)} (h : group ∈ groupByOwner fields) : group.2 ≠ [] := by
  obtain ⟨howner, hgroup⟩ := mem_groupByOwner.mp h
  rw [hgroup, Ne, groupOf_eq_nil_iff, not_not]
  exact howner

theorem groupByOwner_again (fields : List (ResolvedField ι)) :
    groupByOwner ((groupByOwner fields).flatMap Prod.snd) = groupByOwner fields := by
  refine groupByOwner_flatMap (groupByOwner_split fields).distinct
    (fun _ => ne_nil_of_mem_groupByOwner) ?_
  intro group hgroup f hf
  rw [(mem_groupByOwner.mp hgroup).2] at hf
  exact (mem_groupOf.mp hf).2

/-! ## Identity alone decides -/

/-- Two marked fields are in one group just if they have the same owner. -/
theorem share_group_iff {fields : List (ResolvedField ι)} {f g : ResolvedField ι} (hf : f ∈ fields)
    (hg : g ∈ fields) (hfm : f.marked = true) (hgm : g.marked = true) :
    (∃ group ∈ groupByOwner fields, f ∈ group.2 ∧ g ∈ group.2) ↔ f.owner = g.owner := by
  constructor
  · rintro ⟨group, hgroup, hfin, hgin⟩
    rw [(mem_groupByOwner.mp hgroup).2, mem_groupOf] at hfin hgin
    exact hfin.2.2.trans hgin.2.2.symm
  · intro howner
    refine ⟨(f.owner, groupOf fields f.owner), mem_groupByOwner.mpr ⟨?_, rfl⟩, ?_, ?_⟩
    · exact mem_groupOwners.mpr ⟨f, hf, hfm, rfl⟩
    · exact mem_groupOf.mpr ⟨hf, hfm, rfl⟩
    · exact mem_groupOf.mpr ⟨hg, hgm, howner.symm⟩

end

/-- **Grouping is a stable partition by identity.** One list of groups, and no other, splits the
marked fields of a list by owner: each owner of a marked field once, in order of its first marked
field, with all its marked fields in order. No group is empty, no marked field is lost or doubled,
and grouping the fields of the groups again gives the same groups. However alike two types look, by
name, namespace and arity or by anything else, their fields share a group only if they are the same
type. -/
theorem groups_split_by_identity {ι κ : Type} [DecidableEq ι] (look : ι → κ)
    (fields : List (ResolvedField ι)) :
    (∀ groups, SplitByOwner fields groups ↔ groups = groupByOwner fields) ∧
    (∀ group ∈ groupByOwner fields, group.2 ≠ []) ∧
    ((groupByOwner fields).flatMap Prod.snd).Perm (fields.filter ResolvedField.marked) ∧
    groupByOwner ((groupByOwner fields).flatMap Prod.snd) = groupByOwner fields ∧
    ∀ f ∈ fields, ∀ g ∈ fields, f.marked = true → g.marked = true →
      look f.owner = look g.owner →
      ((∃ group ∈ groupByOwner fields, f ∈ group.2 ∧ g ∈ group.2) ↔ f.owner = g.owner) := by
  refine ⟨?_, fun _ => ne_nil_of_mem_groupByOwner, groupByOwner_fields fields,
    groupByOwner_again fields, ?_⟩
  · intro groups
    constructor
    · intro h
      exact h.unique (groupByOwner_split fields)
    · rintro rfl
      exact groupByOwner_split fields
  · intro f hf g hg hfm hgm _
    exact share_group_iff hf hg hfm hgm

namespace Sample

/-- Three types known by number. The first two have the same path. -/
def pathOfNumber : Nat → TypePath
  | 0 => .top (.child .global "Geometry") ⟨"Point", 0⟩
  | 1 => .top (.child .global "Geometry") ⟨"Point", 0⟩
  | _ => .top (.child .global "Geometry") ⟨"Line", 0⟩

/-- Fields of the three types in turn, some of them without the marker. -/
def fieldsInTurn : List (ResolvedField Nat) :=
  [⟨1, "Z", false⟩, ⟨0, "X", true⟩, ⟨2, "Start", true⟩, ⟨1, "X", true⟩, ⟨0, "Y", true⟩,
    ⟨0, "Z", false⟩, ⟨2, "End", true⟩]

end Sample

theorem look_alikes_grouped_apart :
    Sample.pathOfNumber 0 = Sample.pathOfNumber 1 ∧
    SplitByOwner Sample.fieldsInTurn [(0, [⟨0, "X", true⟩, ⟨0, "Y", true⟩]),
      (2, [⟨2, "Start", true⟩, ⟨2, "End", true⟩]), (1, [⟨1, "X", true⟩])] ∧
    ¬ ∃ group ∈ groupByOwner Sample.fieldsInTurn,
      ⟨0, "X", true⟩ ∈ group.2 ∧ ⟨1, "X", true⟩ ∈ group.2 := by
  obtain ⟨hsplit, _, _, _, htogether⟩ :=
    groups_split_by_identity Sample.pathOfNumber Sample.fieldsInTurn
  refine ⟨rfl, (hsplit _).mpr (by decide), ?_⟩
  rw [htogether ⟨0, "X", true⟩ (by decide) ⟨1, "X", true⟩ (by decide) rfl rfl rfl]
  decide

end PrintGen
