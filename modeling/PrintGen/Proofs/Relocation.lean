import PrintGen.Proofs.Layout
import PrintGen.Proofs.TwinPass

/-!
# Sources in other places

Sources may be moved to other paths, and their text may be laid out in another way. Trees and
declarations are known by identities and byte ranges, so these change, but they still tell the same
things apart. A pass that reads the same therefore comes to the same.
-/

namespace PrintGen

open Syntax Symbols

/-! ## Pairing by position -/

section

variable {α β : Type} {as : List α} {bs : List β}

/-- Members of two lists without duplicates are paired one to one by their positions. -/
theorem biUnique_zip (ha : as.Nodup) (hb : bs.Nodup) :
    Relator.BiUnique fun a b => (a, b) ∈ as.zip bs := by
  have hindex : ∀ {a b}, (a, b) ∈ as.zip bs → ∃ i : Nat, as[i]? = some a ∧ bs[i]? = some b := by
    intro a b h
    obtain ⟨i, hi⟩ := List.mem_iff_getElem?.mp h
    exact ⟨i, List.getElem?_zip_eq_some.mp hi⟩
  have hbound : ∀ {γ : Type} {cs : List γ} {i : Nat} {c : γ}, cs[i]? = some c → i < cs.length :=
    fun h => (List.getElem?_eq_some_iff.mp h).1
  constructor
  · intro a b c hac hbc
    obtain ⟨i, hi, hi'⟩ := hindex hac
    obtain ⟨j, hj, hj'⟩ := hindex hbc
    obtain rfl : i = j := (List.getElem?_inj (hbound hi') hb).mp (hi'.trans hj'.symm)
    exact Option.some.inj (hi.symm.trans hj)
  · intro a b c hab hac
    obtain ⟨i, hi, hi'⟩ := hindex hab
    obtain ⟨j, hj, hj'⟩ := hindex hac
    obtain rfl : i = j := (List.getElem?_inj (hbound hi) ha).mp (hi.trans hj.symm)
    exact Option.some.inj (hi'.symm.trans hj')

theorem forall₂_zip_mem (as : List α) (bs : List β) (h : as.length = bs.length) :
    List.Forall₂ (fun a b => (a, b) ∈ as.zip bs) as bs :=
  List.forall₂_iff_zip.mpr ⟨h, fun hab => hab⟩

/-- What is known of the members that a filter keeps, as a statement about all. -/
theorem forall₂_of_filter {R S : α → β → Prop} {p : α → Bool} {q : β → Bool}
    (h : List.Forall₂ R as bs) (hpq : ∀ a b, R a b → q b = p a)
    (hs : List.Forall₂ S (as.filter p) (bs.filter q)) :
    List.Forall₂ (fun a b => p a = true → S a b) as bs := by
  induction h with
  | nil => exact .nil
  | @cons a b as bs hab _ ih =>
    rw [List.filter_cons, List.filter_cons, hpq a b hab] at hs
    cases hp : p a with
    | true =>
      rw [hp, if_pos rfl, if_pos rfl] at hs
      obtain ⟨hfirst, hrest⟩ := List.forall₂_cons.mp hs
      exact .cons (fun _ => hfirst) (ih hrest)
    | false =>
      rw [hp] at hs
      exact .cons (fun hf => absurd hf (by simp [hp])) (ih hs)

end

/-- Two trees that read alike. -/
abbrev TreesAlike (tree other : SourceTree) : Prop :=
  ReadsAlike tree other tree.root other.root

/-- The keys of type and field declarations, in source order. -/
def keysOf (trees : List SourceTree) : List NodeKey :=
  ((allSites trees).filter fun s => s.node.kind.isKeyed).map Site.key

/-- Trees and declarations paired by their positions. -/
def byPosition (trees others : List SourceTree) : Pairing where
  ids id id' := (id, id') ∈ (trees.map SourceTree.id).zip (others.map SourceTree.id)
  keys key key' := (key, key') ∈ (keysOf trees).zip (keysOf others)

section

variable {trees others : List SourceTree} (h : List.Forall₂ TreesAlike trees others)

include h

theorem allSites_alike :
    List.Forall₂ (fun s s' => ReadsAlike s.tree s'.tree s.node s'.node) (allSites trees)
      (allSites others) := by
  refine List.rel_flatMap h fun tree other ht => ?_
  rw [List.forall₂_map_left_iff, List.forall₂_map_right_iff]
  exact preorder_alike _ _ ht

/-- What holds of all sites holds of the nodes of each tree. -/
theorem forall₂_nodes {Q : Site → Site → Prop}
    (hq : List.Forall₂ Q (allSites trees) (allSites others)) :
    List.Forall₂ (fun tree other => List.Forall₂ (fun n n' => Q ⟨tree, n⟩ ⟨other, n'⟩)
      tree.root.preorder other.root.preorder) trees others := by
  induction h with
  | nil => exact .nil
  | @cons tree other trees others ht _ ih =>
    rw [allSites, allSites, List.flatMap_cons, List.flatMap_cons] at hq
    have hlength : (tree.root.preorder.map (Site.mk tree)).length =
        (other.root.preorder.map (Site.mk other)).length := by
      rw [List.length_map, List.length_map, (preorder_alike _ _ ht).length_eq]
    obtain ⟨hfirst, hrest⟩ := forall₂_append_left hlength hq
    rw [List.forall₂_map_left_iff, List.forall₂_map_right_iff] at hfirst
    exact .cons hfirst (ih hrest)

theorem byPosition_twins :
    List.Forall₂ (TreeTwin (byPosition trees others)) trees others := by
  have hids := forall₂_zip_mem (trees.map SourceTree.id) (others.map SourceTree.id) (by
    rw [List.length_map, List.length_map, h.length_eq])
  rw [List.forall₂_map_left_iff, List.forall₂_map_right_iff] at hids
  have hsites := allSites_alike h
  have hkinds : ∀ s s' : Site, ReadsAlike s.tree s'.tree s.node s'.node →
      s'.node.kind.isKeyed = s.node.kind.isKeyed := fun s s' hs => by rw [hs.here.kind]
  have hkeyed := forall₂_zip_mem (keysOf trees) (keysOf others) (by
    rw [keysOf, keysOf, List.length_map, List.length_map, (forall₂_filter hsites hkinds).length_eq])
  rw [keysOf, keysOf, List.forall₂_map_left_iff, List.forall₂_map_right_iff] at hkeyed
  have hnodes := forall₂_nodes h (forall₂_of_filter hsites hkinds hkeyed)
  refine (forall₂_and hids (forall₂_and h hnodes)).imp fun t t' ht => ⟨ht.1, ?_⟩
  exact .of_alike _ _ ht.2.1 ht.2.2

end

theorem byPosition_oneToOne {trees others : List SourceTree}
    (hids : (trees.map SourceTree.id).Nodup) (hids' : (others.map SourceTree.id).Nodup)
    (hkeys : ∀ tree ∈ trees, KeysDistinct Kind.isKeyed tree)
    (hkeys' : ∀ tree ∈ others, KeysDistinct Kind.isKeyed tree) :
    (byPosition trees others).OneToOne :=
  ⟨biUnique_zip hids hids', biUnique_zip (allSites_keys hids hkeys) (allSites_keys hids' hkeys')⟩

theorem Marker.tree_keysDistinct : KeysDistinct Kind.isKeyed Marker.tree := by
  decide +kernel

namespace Sample

mutual

/-- A node that lies a number of bytes later. -/
def later (offset : Nat) : Node → Node
  | .mk kind named missing start stop label children =>
    .mk kind named missing (start + offset) (stop + offset) label (allLater offset children)

def allLater (offset : Nat) : List Node → List Node
  | [] => []
  | node :: rest => later offset node :: allLater offset rest

end

/-- A source in another directory, and with a line in front. -/
def moved (tree : SourceTree) : SourceTree :=
  ⟨tree.id, "moved/" ++ tree.path, "// v2\n".toList ++ tree.content, tree.hasError,
    later 6 tree.root⟩

end Sample

/-- **Layout and paths do not matter.** If the trees of two lists correspond node by node, and in
each list trees and declarations are told apart, passes over the lists have the same outcome: the
same fragments and as many diagnostics with the same messages, or the same fault. -/
theorem generate_relocated (s : Settings) (trees others : List SourceTree)
    (h : List.Forall₂ TreesAlike trees others)
    (hids : ((trees ++ [Marker.tree]).map SourceTree.id).Nodup)
    (hids' : ((others ++ [Marker.tree]).map SourceTree.id).Nodup)
    (hkeys : ∀ tree ∈ trees ++ others, KeysDistinct Kind.isKeyed tree) (before before' : Trace) :
    SameResult (fun g g' => g'.fragments = g.fragments ∧
        g'.diagnostics.map Diagnostic.message = g.diagnostics.map Diagnostic.message)
      (resultOf (generate s trees before)) (resultOf (generate s others before')) := by
  rw [(generate_gives s trees).resultOf_eq trivial, (generate_gives s others).resultOf_eq trivial]
  have hall : List.Forall₂ TreesAlike (trees ++ [Marker.tree]) (others ++ [Marker.tree]) :=
    List.rel_append h (.cons (readsAlike_self rfl _) .nil)
  have hdistinct : ∀ {ts : List SourceTree}, ts ⊆ trees ++ others →
      ∀ tree ∈ ts ++ [Marker.tree], KeysDistinct Kind.isKeyed tree := fun hsub =>
    List.forall_mem_append.mpr ⟨fun tree ht => hkeys tree (hsub ht),
      List.forall_mem_singleton.mpr Marker.tree_keysDistinct⟩
  have hp := byPosition_oneToOne hids hids' (hdistinct (List.subset_append_left _ _))
    (hdistinct (List.subset_append_right _ _))
  refine (generated_twins hp (byPosition_twins hall) s).mono fun g g' hg => ?_
  exact ⟨hg.fragments, map_eq_of_forall₂ hg.diagnostics⟩

/-- A partial class in two files comes to the same after both were moved. -/
theorem generate_relocated_moved :
    ∃ g g', resultOf (generate .default Sample.trees []) = .ok g ∧
      resultOf (generate .default [Sample.moved Sample.first, Sample.moved Sample.second] []) =
        .ok g' ∧
      g'.fragments = g.fragments ∧
      g.keys = [Marker.metadataName, "A.Printables", "A.PrintAllFields"] := by
  have halike : TreesAlike Sample.first (Sample.moved Sample.first) ∧
      TreesAlike Sample.second (Sample.moved Sample.second) := by
    decide +kernel
  have hdistinct : ((Sample.trees ++ [Marker.tree]).map SourceTree.id).Nodup ∧
      (([Sample.moved Sample.first, Sample.moved Sample.second] ++ [Marker.tree]).map
        SourceTree.id).Nodup ∧
      ∀ tree ∈ Sample.trees ++ [Sample.moved Sample.first, Sample.moved Sample.second],
        KeysDistinct Kind.isKeyed tree := by
    decide +kernel
  have hkeys : (generated .default Sample.trees).toOption.map Generated.keys =
      some [Marker.metadataName, "A.Printables", "A.PrintAllFields"] := by
    rw [generated, Resolver.found, Resolver.compiled, Marker.tree_parts]
    decide +kernel
  have hsame := generate_relocated .default Sample.trees
    [Sample.moved Sample.first, Sample.moved Sample.second]
    (.cons halike.1 (.cons halike.2 .nil)) hdistinct.1 hdistinct.2.1 hdistinct.2.2 [] []
  have hgiven : resultOf (generate .default Sample.trees []) = generated .default Sample.trees :=
    (generate_gives _ _).resultOf_eq trivial
  generalize resultOf (generate .default Sample.trees []) = x at hsame hgiven ⊢
  generalize resultOf (generate .default [Sample.moved Sample.first, Sample.moved Sample.second]
    []) = y at hsame ⊢
  rw [← hgiven] at hkeys
  cases hsame with
  | ok h => exact ⟨_, _, rfl, rfl, h.1, Option.some.inj hkeys⟩
  | error fault =>
    rw [Except.toOption, Option.map_none] at hkeys
    cases hkeys

end PrintGen
