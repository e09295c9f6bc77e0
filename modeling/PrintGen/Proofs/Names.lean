import PrintGen.Symbols.Path
import Mathlib.Data.List.Basic

/-!
# Plain names

Metadata names and fragment keys put names together with separators. As long as the names
themselves are free of these, a text that was put together can be taken apart again: at the last
dot, and at the tick before the arity. A name may be empty, and then one thing gets lost: empty
names at the beginning of a namespace leave no trace. Plain names are not empty, so top-level types
with plain names have different metadata names, and none of these is a simple name unless it is the
name of the type itself.
-/

namespace PrintGen

open Syntax (Segment)

/-- A text with a last separator is divided in one way. -/
theorem append_cons_unique {α : Type} {x : α} {as bs cs ds : List α} (hb : x ∉ bs) (hd : x ∉ ds)
    (h : as ++ x :: bs = cs ++ x :: ds) : as = cs ∧ bs = ds := by
  induction as generalizing cs with
  | nil =>
    cases cs with
    | nil => exact ⟨rfl, List.tail_eq_of_cons_eq h⟩
    | cons c cs =>
      have htail : bs = cs ++ x :: ds := List.tail_eq_of_cons_eq h
      exact absurd (htail ▸ by simp) hb
  | cons a as ih =>
    cases cs with
    | nil =>
      have htail : as ++ x :: bs = ds := List.tail_eq_of_cons_eq h
      exact absurd (htail ▸ by simp) hd
    | cons c cs =>
      obtain ⟨rfl, htail⟩ := List.cons_eq_cons.mp h
      obtain ⟨rfl, hrest⟩ := ih htail
      exact ⟨rfl, hrest⟩

theorem joined_unique {sep : String} {x : Char} (hs : sep.toList = [x]) {a b c d : String}
    (hb : x ∉ b.toList) (hd : x ∉ d.toList) (h : a ++ sep ++ b = c ++ sep ++ d) :
    a = c ∧ b = d := by
  have hlist := congrArg String.toList h
  simp only [String.toList_append, hs, List.append_assoc, List.singleton_append] at hlist
  obtain ⟨ha, hrest⟩ := append_cons_unique hb hd hlist
  exact ⟨String.toList_inj.mp ha, String.toList_inj.mp hrest⟩

theorem mem_joined {sep : String} {x : Char} (hs : sep.toList = [x]) (a b : String) :
    x ∈ (a ++ sep ++ b).toList := by
  simp [String.toList_append, hs]

theorem dot_toList : ".".toList = ['.'] := by
  decide

theorem tick_toList : "\x60".toList = ['\x60'] := by
  decide

/-- A name that is not empty and has no separator in it. -/
structure Plain (name : String) : Prop where
  nonempty : name ≠ ""
  noDot : '.' ∉ name.toList
  noPlus : '+' ∉ name.toList
  noTick : '\x60' ∉ name.toList

theorem plain_iff (name : String) : Plain name ↔
    name ≠ "" ∧ '.' ∉ name.toList ∧ '+' ∉ name.toList ∧ '\x60' ∉ name.toList :=
  ⟨fun h => ⟨h.1, h.2, h.3, h.4⟩, fun h => ⟨h.1, h.2.1, h.2.2.1, h.2.2.2⟩⟩

instance (name : String) : Decidable (Plain name) :=
  decidable_of_iff _ (plain_iff name).symm

/-- A name without a dot or a tick; it may be empty. -/
structure Unseparated (name : String) : Prop where
  noDot : '.' ∉ name.toList
  noTick : '\x60' ∉ name.toList

theorem unseparated_iff (name : String) : Unseparated name ↔
    '.' ∉ name.toList ∧ '\x60' ∉ name.toList :=
  ⟨fun h => ⟨h.1, h.2⟩, fun h => ⟨h.1, h.2⟩⟩

instance (name : String) : Decidable (Unseparated name) :=
  decidable_of_iff _ (unseparated_iff name).symm

theorem Plain.unseparated {name : String} (h : Plain name) : Unseparated name :=
  ⟨h.noDot, h.noTick⟩

theorem not_mem_digits {n : Nat} {c : Char} (hc : c.isDigit = false) :
    c ∉ (toString n).toList := by
  rw [Nat.toString_eq_ofList_toDigits, String.toList_ofList]
  intro hm
  rw [Nat.isDigit_of_mem_toDigits (by omega) (by omega) hm] at hc
  cases hc

theorem digits_inj {n m : Nat} (h : toString n = toString m) : n = m := by
  have hdigits : Nat.toDigits 10 n = Nat.toDigits 10 m := by
    have hlist := congrArg String.toList h
    rwa [Nat.toString_eq_ofList_toDigits, Nat.toString_eq_ofList_toDigits, String.toList_ofList,
      String.toList_ofList] at hlist
  rw [← Nat.ofDigitChars_ten_toDigits (n := n), hdigits, Nat.ofDigitChars_ten_toDigits]

namespace Symbols

/-- All names that lead to a namespace are plain. -/
def Namespace.Plain : Namespace → Prop
  | .global => True
  | .child parent name => parent.Plain ∧ PrintGen.Plain name

instance Namespace.decidablePlain : ∀ n : Namespace, Decidable n.Plain
  | .global => .isTrue trivial
  | .child parent name =>
    have := decidablePlain parent
    inferInstanceAs (Decidable (parent.Plain ∧ PrintGen.Plain name))

/-- All names that lead to a type are plain. -/
def TypePath.Plain : TypePath → Prop
  | .top home own => home.Plain ∧ PrintGen.Plain own.name
  | .nested outer own => outer.Plain ∧ PrintGen.Plain own.name

instance TypePath.decidablePlain : ∀ t : TypePath, Decidable t.Plain
  | .top home own => inferInstanceAs (Decidable (home.Plain ∧ PrintGen.Plain own.name))
  | .nested outer own =>
    have := decidablePlain outer
    inferInstanceAs (Decidable (outer.Plain ∧ PrintGen.Plain own.name))

theorem TypePath.Plain.name {t : TypePath} (h : t.Plain) : PrintGen.Plain t.name := by
  cases t with
  | top home own => exact h.2
  | nested outer own => exact h.2

theorem TypePath.Plain.home {t : TypePath} (h : t.Plain) : t.home.Plain := by
  induction t with
  | top home own => exact h.1
  | nested outer own ih => exact ih h.1

/-- All names that lead to a namespace have a property. -/
def Namespace.All (P : String → Prop) : Namespace → Prop
  | .global => True
  | .child parent name => parent.All P ∧ P name

/-- All names that lead to a type have a property. -/
def TypePath.All (P : String → Prop) : TypePath → Prop
  | .top home own => home.All P ∧ P own.name
  | .nested outer own => outer.All P ∧ P own.name

theorem Namespace.Plain.unseparated {n : Namespace} (h : n.Plain) : n.All Unseparated := by
  induction n with
  | global => trivial
  | child parent name ih => exact ⟨ih h.1, h.2.unseparated⟩

theorem TypePath.All.name {P : String → Prop} {t : TypePath} (h : t.All P) : P t.name := by
  cases t with
  | top home own => exact h.2
  | nested outer own => exact h.2

theorem TypePath.All.home {P : String → Prop} {t : TypePath} (h : t.All P) : t.home.All P := by
  induction t with
  | top home own => exact h.1
  | nested outer own ih => exact ih h.1

/-! ## Segments -/

theorem metadataSegment_noDot {s : Segment} (h : Unseparated s.name) :
    '.' ∉ (metadataSegment s).toList := by
  rw [metadataSegment]
  split
  · exact h.noDot
  · simp only [String.toList_append, List.mem_append, not_or]
    exact ⟨⟨h.noDot, by decide⟩, not_mem_digits (by decide)⟩

theorem metadataSegment_inj {s u : Segment} (hs : Unseparated s.name) (hu : Unseparated u.name)
    (h : metadataSegment s = metadataSegment u) : s = u := by
  have hdigits : ∀ n : Nat, '\x60' ∉ (toString n).toList := fun n => not_mem_digits (by decide)
  obtain ⟨name, arity⟩ := s
  obtain ⟨name', arity'⟩ := u
  simp only [metadataSegment] at h
  split at h
  · rename_i hzero
    split at h
    · rename_i hzero'
      rw [h, hzero, hzero']
    · exact absurd (h ▸ mem_joined tick_toList _ _) hs.noTick
  · split at h
    · exact absurd (h ▸ mem_joined tick_toList _ _) hu.noTick
    · obtain ⟨hname, harity⟩ := joined_unique tick_toList (hdigits arity) (hdigits arity') h
      rw [hname, digits_inj harity]

/-! ## Namespaces -/

/-- A namespace without the empty names that it begins with. -/
def Namespace.trimmed : Namespace → Namespace
  | .global => .global
  | .child parent name =>
    if parent.trimmed = .global ∧ name = "" then .global else .child parent.trimmed name

theorem Namespace.Plain.trimmed {n : Namespace} (h : n.Plain) : n.trimmed = n := by
  induction n with
  | global => rfl
  | child parent name ih =>
    rw [Namespace.trimmed, ih h.1, if_neg fun he => h.2.nonempty he.2]

theorem joined_ne_empty (a b : String) : a ++ "." ++ b ≠ "" := by
  intro h
  exact absurd (h ▸ mem_joined dot_toList a b) (by decide)

theorem Namespace.display_eq_empty_iff (n : Namespace) :
    n.display = "" ↔ n.trimmed = .global := by
  induction n with
  | global => exact iff_of_true rfl rfl
  | child parent name ih =>
    rw [display, Namespace.trimmed]
    by_cases hp : parent.display = ""
    · rw [if_pos hp]
      by_cases hn : name = ""
      · exact iff_of_true hn (if_pos ⟨ih.mp hp, hn⟩)
      · rw [if_neg fun h => hn h.2]
        exact iff_of_false hn (by simp)
    · rw [if_neg hp, if_neg fun h => hp (ih.mpr h.1)]
      exact iff_of_false (joined_ne_empty _ _) (by simp)

section

variable {parent : Namespace} (name : String)

theorem Namespace.trimmed_child_of_empty (h : parent.display = "") :
    (child parent name).trimmed = if name = "" then .global else .child .global name := by
  have htrimmed := parent.display_eq_empty_iff.mp h
  rw [Namespace.trimmed, htrimmed]
  by_cases hn : name = ""
  · rw [if_pos ⟨rfl, hn⟩, if_pos hn]
  · rw [if_neg fun h => hn h.2, if_neg hn]

theorem Namespace.trimmed_child (h : parent.display ≠ "") :
    (child parent name).trimmed = .child parent.trimmed name := by
  rw [Namespace.trimmed, if_neg fun he => h (parent.display_eq_empty_iff.mpr he.1)]

end

/-- **Namespaces have the same dotted name exactly if they differ at most in the empty names that
they begin with.** -/
theorem Namespace.display_eq_iff {n m : Namespace} (hn : n.All Unseparated)
    (hm : m.All Unseparated) : n.display = m.display ↔ n.trimmed = m.trimmed := by
  -- A parent with an empty display shows nothing but the last name, which has no dot.
  have hmixed : ∀ {p p' : Namespace} {name name' : String}, p.display = "" → p'.display ≠ "" →
      Unseparated name → (child p name).display ≠ (child p' name').display ∧
        (child p name).trimmed ≠ (child p' name').trimmed := by
    intro p p' name name' hp hp' hname
    rw [display, if_pos hp, display, if_neg hp', trimmed_child_of_empty name hp,
      trimmed_child name' hp']
    refine ⟨fun h => absurd (h ▸ mem_joined dot_toList _ _) hname.noDot, fun h => ?_⟩
    split at h
    · cases h
    · exact hp' (p'.display_eq_empty_iff.mpr (Namespace.child.inj h).1.symm)
  induction n generalizing m with
  | global => exact eq_comm.trans (m.display_eq_empty_iff.trans eq_comm)
  | child parent name ih =>
    cases m with
    | global => exact display_eq_empty_iff _
    | child parent' name' =>
      by_cases hp : parent.display = ""
      · by_cases hp' : parent'.display = ""
        · rw [display, if_pos hp, display, if_pos hp', trimmed_child_of_empty name hp,
            trimmed_child_of_empty name' hp']
          constructor
          · rintro rfl
            rfl
          · intro h
            split at h <;> split at h <;> simp_all
        · obtain ⟨hd, ht⟩ := hmixed hp hp' hn.2
          exact iff_of_false hd ht
      · by_cases hp' : parent'.display = ""
        · obtain ⟨hd, ht⟩ := hmixed hp' hp hm.2
          exact iff_of_false hd.symm ht.symm
        · have hparents : parent.display = parent'.display ↔ parent.trimmed = parent'.trimmed :=
            ih hn.1 hm.1
          rw [display, if_neg hp, display, if_neg hp', trimmed_child name hp,
            trimmed_child name' hp', Namespace.child.injEq, ← hparents]
          constructor
          · exact joined_unique dot_toList hn.2.noDot hm.2.noDot
          · rintro ⟨hparent, rfl⟩
            rw [hparent]

/-- Plain namespaces are known by their dotted names. -/
theorem Namespace.display_inj {n m : Namespace} (hn : n.Plain) (hm : m.Plain)
    (h : n.display = m.display) : n = m := by
  have ht := (display_eq_iff hn.unseparated hm.unseparated).mp h
  rwa [hn.trimmed, hm.trimmed] at ht

/-! ## Types -/

/-- **A metadata name tells the dotted name of the namespace and the own segment.** -/
theorem TypePath.metadataName_eq_iff {t u : TypePath} (ht : Unseparated t.name)
    (hu : Unseparated u.name) (htop : t.isTopLevel = true) (hutop : u.isTopLevel = true) :
    t.metadataName = u.metadataName ↔ t.home.display = u.home.display ∧ t.own = u.own := by
  cases t with
  | nested outer own => cases htop
  | top home own =>
    cases u with
    | nested outer own' => cases hutop
    | top home' own' =>
      have hseg := metadataSegment_noDot ht
      have hseg' := metadataSegment_noDot hu
      simp only [metadataName, TypePath.home, TypePath.own]
      constructor
      · intro h
        split at h
        · rename_i hhome
          split at h
          · rename_i hhome'
            exact ⟨hhome.trans hhome'.symm, metadataSegment_inj ht hu h⟩
          · exact absurd (h ▸ mem_joined dot_toList _ _) hseg
        · split at h
          · exact absurd (h ▸ mem_joined dot_toList _ _) hseg'
          · obtain ⟨hhome, hown⟩ := joined_unique dot_toList hseg hseg' h
            exact ⟨hhome, metadataSegment_inj ht hu hown⟩
      · rintro ⟨hhome, rfl⟩
        rw [hhome]

theorem TypePath.eq_of_top {t u : TypePath} (htop : t.isTopLevel = true)
    (hutop : u.isTopLevel = true) (hhome : t.home = u.home) (hown : t.own = u.own) : t = u := by
  cases t with
  | nested outer own => cases htop
  | top home own =>
    cases u with
    | nested outer own' => cases hutop
    | top home' own' => exact congrArg₂ TypePath.top hhome hown

/-- **Plain top-level types are known by their metadata names.** -/
theorem TypePath.metadataName_inj {t u : TypePath} (ht : t.Plain) (hu : u.Plain)
    (htop : t.isTopLevel = true) (hutop : u.isTopLevel = true)
    (h : t.metadataName = u.metadataName) : t = u := by
  obtain ⟨hhome, hown⟩ := (metadataName_eq_iff ht.name.unseparated hu.name.unseparated htop
    hutop).mp h
  exact eq_of_top htop hutop (Namespace.display_inj ht.home hu.home hhome) hown

/-- A metadata name has no separator only if it is the simple name of the type. -/
theorem TypePath.name_of_metadataName {t : TypePath} {name : String} (hn : Unseparated name)
    (htop : t.isTopLevel = true) (h : t.metadataName = name) : t.name = name := by
  cases t with
  | nested outer own => cases htop
  | top home own =>
    simp only [metadataName] at h
    split at h
    · rw [metadataSegment] at h
      split at h
      · exact h
      · exact absurd (h ▸ mem_joined tick_toList _ _) hn.noTick
    · exact absurd (h ▸ mem_joined dot_toList _ _) hn.noDot

end Symbols

end PrintGen
