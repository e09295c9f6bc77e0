import Mathlib.Data.List.Forall2

/-!
# Computations side by side

Two computations that are started alike come to results that are alike: to values in a relation, or
to the same fault. `SameResult` says so of plain results. `Tracks` says so of computations with a
state each, whose states are in a relation before and after. Both compose.
-/

namespace PrintGen

/-! ## Lists and options side by side -/

section

variable {α β : Type} {R : α → β → Prop} {as : List α} {bs : List β}

theorem forall₂_find? (h : List.Forall₂ R as bs) {p : α → Bool} {q : β → Bool}
    (hpq : ∀ a b, R a b → q b = p a) : Option.Rel R (as.find? p) (bs.find? q) := by
  induction h with
  | nil => exact .none
  | cons hab _ ih =>
    rw [List.find?_cons, List.find?_cons, hpq _ _ hab]
    split
    · exact .some hab
    · exact ih

theorem forall₂_filter (h : List.Forall₂ R as bs) {p : α → Bool} {q : β → Bool}
    (hpq : ∀ a b, R a b → q b = p a) : List.Forall₂ R (as.filter p) (bs.filter q) :=
  List.rel_filter (fun a b hab => by simp only [hpq a b hab]) h

theorem forall₂_any (h : List.Forall₂ R as bs) {p : α → Bool} {q : β → Bool}
    (hpq : ∀ a b, R a b → q b = p a) : bs.any q = as.any p := by
  induction h with
  | nil => rfl
  | cons hab _ ih => rw [List.any_cons, List.any_cons, hpq _ _ hab, ih]

theorem forall₂_eraseP (h : List.Forall₂ R as bs) {p : α → Bool} {q : β → Bool}
    (hpq : ∀ a b, R a b → q b = p a) : List.Forall₂ R (as.eraseP p) (bs.eraseP q) := by
  induction h with
  | nil => exact .nil
  | @cons a b as bs hab hrest ih =>
    rw [List.eraseP_cons, List.eraseP_cons, hpq _ _ hab]
    cases p a with
    | true => exact hrest
    | false => exact .cons hab ih

theorem forall₂_head? (h : List.Forall₂ R as bs) : Option.Rel R as.head? bs.head? := by
  cases h with
  | nil => exact .none
  | cons hab _ => exact .some hab

theorem forall₂_getLast? (h : List.Forall₂ R as bs) : Option.Rel R as.getLast? bs.getLast? := by
  rw [← List.head?_reverse, ← List.head?_reverse]
  exact forall₂_head? (List.rel_reverse h)

theorem forall₂_isEmpty (h : List.Forall₂ R as bs) : bs.isEmpty = as.isEmpty := by
  cases h with
  | nil => rfl
  | cons => rfl

theorem forall₂_append_left {as' : List α} {bs' : List β} (hl : as.length = bs.length)
    (h : List.Forall₂ R (as ++ as') (bs ++ bs')) :
    List.Forall₂ R as bs ∧ List.Forall₂ R as' bs' := by
  constructor
  · have htake := List.forall₂_take as.length h
    rwa [List.take_left, hl, List.take_left] at htake
  · have hdrop := List.forall₂_drop as.length h
    rwa [List.drop_left, hl, List.drop_left] at hdrop

theorem forall₂_and {S : α → β → Prop} (h : List.Forall₂ R as bs) (hs : List.Forall₂ S as bs) :
    List.Forall₂ (fun a b => R a b ∧ S a b) as bs := by
  induction h with
  | nil => exact .nil
  | cons hab _ ih =>
    obtain ⟨hfirst, hrest⟩ := List.forall₂_cons.mp hs
    exact .cons ⟨hab, hfirst⟩ (ih hrest)

theorem forall₂_and_map {γ : Type} {f : α → γ} {g : β → γ} (h : List.Forall₂ R as bs)
    (hm : bs.map g = as.map f) : List.Forall₂ (fun a b => R a b ∧ g b = f a) as bs := by
  induction h with
  | nil => exact .nil
  | cons hab _ ih =>
    rw [List.map_cons, List.map_cons, List.cons.injEq] at hm
    exact .cons ⟨hab, hm.1⟩ (ih hm.2)

theorem optionRel_mono {S : α → β → Prop} {a : Option α} {b : Option β} (h : Option.Rel R a b)
    (hs : ∀ x y, R x y → S x y) : Option.Rel S a b := by
  cases h with
  | none => exact .none
  | some h => exact .some (hs _ _ h)

theorem optionRel_or {a a' : Option α} {b b' : Option β} (h : Option.Rel R a b)
    (h' : Option.Rel R a' b') : Option.Rel R (a.or a') (b.or b') := by
  cases h with
  | none => exact h'
  | some h => exact .some h

theorem optionRel_getD {a : Option α} {b : Option β} (h : Option.Rel R a b) {x : α} {y : β}
    (hxy : R x y) : R (a.getD x) (b.getD y) := by
  cases h with
  | none => exact hxy
  | some h => exact h

theorem mapM_eq_of_forall₂ {ε γ : Type} {f : α → Except ε γ} {g : β → Except ε γ}
    (h : List.Forall₂ (fun a b => g b = f a) as bs) : bs.mapM g = as.mapM f := by
  induction h with
  | nil => rfl
  | cons hab _ ih => rw [List.mapM_cons, List.mapM_cons, hab, ih]

end

/-! ## Results -/

section

variable {ε α β γ δ : Type} {R : α → β → Prop} {S : γ → δ → Prop}

/-- Two results that are the same fault, or values in a relation. -/
inductive SameResult (R : α → β → Prop) : Except ε α → Except ε β → Prop
  | ok {a : α} {b : β} (h : R a b) : SameResult R (.ok a) (.ok b)
  | error (fault : ε) : SameResult R (.error fault) (.error fault)

namespace SameResult

theorem of_eq {x y : Except ε α} (h : y = x) : SameResult (fun a b => b = a) x y := by
  subst h
  cases y with
  | ok a => exact .ok rfl
  | error fault => exact .error fault

theorem eq {x y : Except ε α} (h : SameResult (fun a b => b = a) x y) : y = x := by
  cases h with
  | ok h => rw [h]
  | error => rfl

theorem mono {x : Except ε α} {y : Except ε β} (h : SameResult R x y) {Q : α → β → Prop}
    (hq : ∀ a b, R a b → Q a b) : SameResult Q x y := by
  cases h with
  | ok h => exact .ok (hq _ _ h)
  | error fault => exact .error fault

theorem bind {x : Except ε α} {y : Except ε β} {f : α → Except ε γ} {g : β → Except ε δ}
    (hx : SameResult R x y) (hf : ∀ a b, R a b → SameResult S (f a) (g b)) :
    SameResult S (x >>= f) (y >>= g) := by
  cases hx with
  | ok h => exact hf _ _ h
  | error fault => exact .error fault

theorem mapM {f : α → Except ε γ} {g : β → Except ε δ} {as : List α} {bs : List β}
    (h : List.Forall₂ (fun a b => SameResult S (f a) (g b)) as bs) :
    SameResult (List.Forall₂ S) (as.mapM f) (bs.mapM g) := by
  induction h with
  | nil => exact .ok .nil
  | cons hab _ ih =>
    rw [List.mapM_cons, List.mapM_cons]
    exact hab.bind fun c d hcd => ih.bind fun cs ds hrest => .ok (.cons hcd hrest)

theorem foldlM {f : γ → α → Except ε γ} {g : δ → β → Except ε δ} {as : List α} {bs : List β}
    (h : List.Forall₂ R as bs)
    (hstep : ∀ c d a b, S c d → R a b → SameResult S (f c a) (g d b)) {c : γ} {d : δ}
    (hcd : S c d) : SameResult S (as.foldlM f c) (bs.foldlM g d) := by
  induction h generalizing c d with
  | nil => exact .ok hcd
  | cons hab _ ih =>
    rw [List.foldlM_cons, List.foldlM_cons]
    exact (hstep _ _ _ _ hcd hab).bind fun _ _ hnext => ih hnext

end SameResult

/-! ## With a state on each side -/

variable {σ τ : Type} {T : σ → τ → Prop}

/-- Two runs that end in the same fault, or in values and states that are in relations. -/
inductive SameRun (T : σ → τ → Prop) (R : α → β → Prop) :
    EStateM.Result ε σ α → EStateM.Result ε τ β → Prop
  | ok {a : α} {b : β} {s : σ} {t : τ} (ht : T s t) (h : R a b) : SameRun T R (.ok a s) (.ok b t)
  | error (fault : ε) (s : σ) (t : τ) : SameRun T R (.error fault s) (.error fault t)

/-- Started in states that are in a relation, both computations end alike. -/
def Tracks (T : σ → τ → Prop) (R : α → β → Prop) (x : EStateM ε σ α) (y : EStateM ε τ β) : Prop :=
  ∀ s t, T s t → SameRun T R (x s) (y t)

namespace Tracks

theorem pure {a : α} {b : β} (h : R a b) :
    Tracks T R (Pure.pure a : EStateM ε σ α) (Pure.pure b : EStateM ε τ β) :=
  fun _ _ ht => .ok ht h

theorem of_modify {f : σ → σ} {g : τ → τ} (h : ∀ s t, T s t → T (f s) (g t)) :
    Tracks T (fun _ _ => True) (modify f : EStateM ε σ PUnit) (modify g : EStateM ε τ PUnit) :=
  fun s t ht => .ok (h s t ht) trivial

theorem bind {x : EStateM ε σ α} {y : EStateM ε τ β} {f : α → EStateM ε σ γ}
    {g : β → EStateM ε τ δ} (hx : Tracks T R x y) (hf : ∀ a b, R a b → Tracks T S (f a) (g b)) :
    Tracks T S (x >>= f) (y >>= g) := by
  intro s t ht
  have hrun := hx s t ht
  change SameRun T S (EStateM.bind x f s) (EStateM.bind y g t)
  rw [EStateM.bind, EStateM.bind]
  generalize x s = r at hrun ⊢
  generalize y t = r' at hrun ⊢
  cases hrun with
  | ok ht h => exact hf _ _ h _ _ ht
  | error fault s t => exact .error fault s t

theorem forM {f : α → EStateM ε σ PUnit} {g : β → EStateM ε τ PUnit} {as : List α} {bs : List β}
    (h : List.Forall₂ (fun a b => Tracks T (fun _ _ => True) (f a) (g b)) as bs) :
    Tracks T (fun _ _ => True) (as.forM f) (bs.forM g) := by
  induction h with
  | nil => exact pure trivial
  | cons hab _ ih =>
    rw [List.forM, List.forM]
    exact bind hab fun _ _ _ => ih

/-- Where both computations return, their values and states are in the relations. -/
theorem returned {x : EStateM ε σ α} {y : EStateM ε τ β} (h : Tracks T R x y) {s s' : σ}
    {t t' : τ} {a : α} {b : β} (ht : T s t) (hx : x s = .ok a s') (hy : y t = .ok b t') :
    T s' t' ∧ R a b := by
  have hrun := h s t ht
  rw [hx, hy] at hrun
  cases hrun with
  | ok ht h => exact ⟨ht, h⟩

end Tracks

end

end PrintGen
