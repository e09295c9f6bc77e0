import PrintGen.Trace
import Mathlib.Data.List.Forall2

/-!
# Results that do not depend on the state

A computation with a state may stop at a fault. Its successful runs are taken apart step by step.
Where the state only carries records, or answers that could be worked out again, the result is the
same in all states that satisfy an invariant; `Gives` says so, and it composes. `Yields` says less:
it is about the runs that return, and it composes as well.
-/

namespace PrintGen

theorem except_bind_ok {ε α β : Type} {x : Except ε α} {f : α → Except ε β} {b : β} :
    x >>= f = .ok b ↔ ∃ a, x = .ok a ∧ f a = .ok b := by
  cases x with
  | error e => simp [bind, Except.bind]
  | ok a => simp [bind, Except.bind]

theorem except_ok_bind {ε α β : Type} (a : α) (f : α → Except ε β) :
    (Except.ok a >>= f) = f a :=
  rfl

theorem ok_of_toOption {ε α : Type} {v : Except ε α} {a : α} (h : v.toOption = some a) :
    v = .ok a := by
  cases v with
  | error e => cases h
  | ok b => exact congrArg Except.ok (Option.some.inj h)

/-- A list of results is read off one by one. -/
theorem mapM_ok_iff {ε α β : Type} {f : α → Except ε β} {as : List α} {bs : List β} :
    as.mapM f = .ok bs ↔ List.Forall₂ (fun a b => f a = .ok b) as bs := by
  induction as generalizing bs with
  | nil =>
    rw [List.mapM_nil, List.forall₂_nil_left_iff]
    exact ⟨fun h => by cases h; rfl, fun h => by cases h; rfl⟩
  | cons a as ih =>
    rw [List.mapM_cons, except_bind_ok, List.forall₂_cons_left_iff]
    constructor
    · rintro ⟨b, hb, hr⟩
      obtain ⟨rest, hrest, he⟩ := except_bind_ok.mp hr
      cases he
      exact ⟨b, rest, hb, ih.mp hrest, rfl⟩
    · rintro ⟨b, rest, hb, hrest, rfl⟩
      exact ⟨b, hb, except_bind_ok.mpr ⟨rest, ih.mpr hrest, rfl⟩⟩

theorem mapM_congr_mem {ε α β : Type} {f g : α → Except ε β} {as : List α}
    (h : ∀ a ∈ as, f a = g a) : as.mapM f = as.mapM g := by
  induction as with
  | nil => rfl
  | cons a rest ih =>
    obtain ⟨ha, hrest⟩ := List.forall_mem_cons.mp h
    rw [List.mapM_cons, List.mapM_cons, ha, ih hrest]

theorem mem_of_mapM {ε α β : Type} {f : α → Except ε β} {as : List α} {bs : List β}
    (h : as.mapM f = .ok bs) {b : β} (hb : b ∈ bs) : ∃ a ∈ as, f a = .ok b := by
  have hall := mapM_ok_iff.mp h
  clear h
  induction hall with
  | nil => cases hb
  | @cons a c as bs hc _ ih =>
    rcases List.mem_cons.mp hb with rfl | hr
    · exact ⟨a, by simp, hc⟩
    · obtain ⟨a', ha', hf⟩ := ih hr
      exact ⟨a', by simp [ha'], hf⟩

/-- What can be told of each result from where it comes from. -/
theorem map_of_mapM {ε α β γ : Type} {f : α → Except ε β} {as : List α} {bs : List β}
    (h : as.mapM f = .ok bs) {view : β → γ} {source : α → γ}
    (hv : ∀ a b, f a = .ok b → view b = source a) : bs.map view = as.map source := by
  have hall := mapM_ok_iff.mp h
  clear h
  induction hall with
  | nil => rfl
  | cons hb _ ih => rw [List.map_cons, List.map_cons, hv _ _ hb, ih]

/-- A list of results is there if each of them is. -/
theorem mapM_total {ε α β : Type} {f : α → Except ε β} {as : List α}
    (h : ∀ a ∈ as, ∃ b, f a = .ok b) : ∃ bs, as.mapM f = .ok bs := by
  induction as with
  | nil => exact ⟨[], rfl⟩
  | cons a rest ih =>
    obtain ⟨b, hb⟩ := h a (by simp)
    obtain ⟨bs, hbs⟩ := ih fun c hc => h c (by simp [hc])
    exact ⟨b :: bs, by rw [List.mapM_cons, hb, except_ok_bind, hbs, except_ok_bind]; rfl⟩

theorem filterAuxM_ok_iff {ε α : Type} {p : α → Except ε Bool} {as found bs : List α} :
    as.filterAuxM p found = .ok bs ↔ (∀ a ∈ as, ∃ b, p a = .ok b) ∧
      bs = (as.filter fun a => (p a).toOption = some true).reverse ++ found := by
  induction as generalizing found with
  | nil =>
    constructor
    · intro h
      cases h
      exact ⟨by simp, by simp⟩
    · rintro ⟨_, rfl⟩
      rfl
  | cons a rest ih =>
    rw [List.filterAuxM, except_bind_ok]
    simp only [ih, List.forall_mem_cons]
    constructor
    · rintro ⟨b, hb, hrest, rfl⟩
      refine ⟨⟨⟨b, hb⟩, hrest⟩, ?_⟩
      cases b <;> simp [hb, Except.toOption]
    · rintro ⟨⟨⟨b, hb⟩, hrest⟩, rfl⟩
      refine ⟨b, hb, hrest, ?_⟩
      cases b <;> simp [hb, Except.toOption]

/-- A filter whose conditions can all be decided is a plain filter. -/
theorem filterM_ok_iff {ε α : Type} {p : α → Except ε Bool} {as bs : List α} :
    as.filterM p = .ok bs ↔ (∀ a ∈ as, ∃ b, p a = .ok b) ∧
      bs = as.filter fun a => (p a).toOption = some true := by
  rw [List.filterM, except_bind_ok]
  simp only [filterAuxM_ok_iff, List.append_nil]
  constructor
  · rintro ⟨_, ⟨hall, rfl⟩, he⟩
    cases he
    exact ⟨hall, List.reverse_reverse _⟩
  · rintro ⟨hall, rfl⟩
    exact ⟨_, ⟨hall, rfl⟩, by rw [List.reverse_reverse]; rfl⟩

section

variable {ε σ α β : Type}

theorem run_bind_ok {x : EStateM ε σ α} {f : α → EStateM ε σ β} {b : β} {s t : σ} :
    (x >>= f) s = .ok b t ↔ ∃ a u, x s = .ok a u ∧ f a u = .ok b t := by
  simp only [bind, EStateM.bind]
  cases x s with
  | ok a u =>
    constructor
    · intro h
      exact ⟨a, u, rfl, h⟩
    · rintro ⟨_, _, he, h⟩
      cases he
      exact h
  | error e u => simp

theorem run_pure_ok {a b : α} {s t : σ} :
    (pure a : EStateM ε σ α) s = .ok b t ↔ a = b ∧ s = t := by
  simp [pure, EStateM.pure]

theorem run_get_bind (f : σ → EStateM ε σ β) (s : σ) :
    ((get : EStateM ε σ σ) >>= f) s = f s s :=
  rfl

/-- Started in any state with the invariant, the computation comes to this result. A value leaves
the invariant in place. -/
def Gives (I : σ → Prop) (x : EStateM ε σ α) : Except ε α → Prop
  | .ok a => ∀ s, I s → ∃ t, x s = .ok a t ∧ I t
  | .error e => ∀ s, I s → ∃ t, x s = .error e t

namespace Gives

variable {I : σ → Prop} {x : EStateM ε σ α} {f : α → EStateM ε σ β}

theorem pure (a : α) : Gives I (Pure.pure a : EStateM ε σ α) (.ok a) :=
  fun s hs => ⟨s, rfl, hs⟩

theorem throw (e : ε) : Gives I (MonadExcept.throw e : EStateM ε σ α) (.error e) :=
  fun s _ => ⟨s, rfl⟩

/-- For each state the computation may be replaced by another one that does the same there. -/
theorem of_run {v : Except ε α}
    (h : ∀ s, I s → ∃ y : EStateM ε σ α, x s = y s ∧ Gives I y v) : Gives I x v := by
  cases v with
  | ok a =>
    intro s hs
    obtain ⟨y, he, hy⟩ := h s hs
    rw [he]
    exact hy s hs
  | error e =>
    intro s hs
    obtain ⟨y, he, hy⟩ := h s hs
    rw [he]
    exact hy s hs

/-- Changing the state is harmless if the invariant survives. -/
theorem of_modify {g : σ → σ} (hg : ∀ s, I s → I (g s)) :
    Gives I (modify g : EStateM ε σ PUnit) (.ok ⟨⟩) :=
  fun s hs => ⟨g s, rfl, hg s hs⟩

theorem bind {v : Except ε α} {w : α → Except ε β} (hx : Gives I x v)
    (hf : ∀ a, v = .ok a → Gives I (f a) (w a)) : Gives I (x >>= f) (v >>= w) := by
  cases v with
  | error e =>
    intro s hs
    obtain ⟨t, ht⟩ := hx s hs
    exact ⟨t, by simp only [Bind.bind, EStateM.bind, ht]⟩
  | ok a =>
    have hfa := hf a rfl
    change Gives I (x >>= f) (w a)
    cases hw : w a with
    | error e =>
      rw [hw] at hfa
      intro s hs
      obtain ⟨t, ht, hi⟩ := hx s hs
      obtain ⟨u, hu⟩ := hfa t hi
      exact ⟨u, by simp only [Bind.bind, EStateM.bind, ht, hu]⟩
    | ok b =>
      rw [hw] at hfa
      intro s hs
      obtain ⟨t, ht, hi⟩ := hx s hs
      obtain ⟨u, hu, hj⟩ := hfa t hi
      exact ⟨u, by simp only [Bind.bind, EStateM.bind, ht, hu], hj⟩

/-- A step with a known value in front changes nothing. -/
theorem after {a : α} {w : Except ε β} (hx : Gives I x (.ok a)) (hf : Gives I (f a) w) :
    Gives I (x >>= f) w :=
  bind (w := fun _ => w) hx (by rintro b hb; cases hb; exact hf)

/-- Neither does a step that comes last and hands the value on. -/
theorem before {y : α → EStateM ε σ PUnit} {v : Except ε α} (hx : Gives I x v)
    (hy : ∀ a, Gives I (y a) (.ok ⟨⟩)) : Gives I (do let a ← x; y a; return a) v := by
  have hlast : Gives I (do let a ← x; y a; return a) (v >>= fun a => .ok a) :=
    bind hx fun a _ => after (hy a) (pure a)
  cases v with
  | ok a => exact hlast
  | error e => exact hlast

/-- What a run returns is what the computation gives. -/
theorem eq_ok {v : Except ε α} {a : α} {s t : σ} (h : Gives I x v) (hs : I s)
    (hr : x s = .ok a t) : v = .ok a ∧ I t := by
  cases v with
  | error e =>
    obtain ⟨u, hu⟩ := h s hs
    rw [hu] at hr
    cases hr
  | ok b =>
    obtain ⟨u, hu, hi⟩ := h s hs
    rw [hu] at hr
    cases hr
    exact ⟨rfl, hi⟩

theorem eq_error {v : Except ε α} {e : ε} {s t : σ} (h : Gives I x v) (hs : I s)
    (hr : x s = .error e t) : v = .error e := by
  cases v with
  | error e' =>
    obtain ⟨u, hu⟩ := h s hs
    rw [hu] at hr
    cases hr
    rfl
  | ok b =>
    obtain ⟨u, hu, _⟩ := h s hs
    rw [hu] at hr
    cases hr

theorem unique {v w : Except ε α} {s : σ} (hs : I s) (hv : Gives I x v) (hw : Gives I x w) :
    v = w := by
  cases w with
  | ok a =>
    obtain ⟨t, ht, _⟩ := hw s hs
    exact (hv.eq_ok hs ht).1
  | error e =>
    obtain ⟨t, ht⟩ := hw s hs
    exact hv.eq_error hs ht

theorem mapM {γ : Type} {g : γ → EStateM ε σ α} {v : γ → Except ε α} {cs : List γ}
    (h : ∀ c ∈ cs, Gives I (g c) (v c)) : Gives I (cs.mapM g) (cs.mapM v) := by
  induction cs with
  | nil => exact pure []
  | cons c cs ih =>
    rw [List.mapM_cons, List.mapM_cons]
    refine bind (h c (by simp)) fun a _ => ?_
    exact bind (ih fun d hd => h d (by simp [hd])) fun as _ => pure _

theorem foldlM {γ : Type} {g : α → γ → EStateM ε σ α} {v : α → γ → Except ε α} {cs : List γ}
    (h : ∀ a, ∀ c ∈ cs, Gives I (g a c) (v a c)) (a : α) :
    Gives I (cs.foldlM g a) (cs.foldlM v a) := by
  induction cs generalizing a with
  | nil => exact pure a
  | cons c cs ih =>
    rw [List.foldlM_cons, List.foldlM_cons]
    exact bind (h a c (by simp)) fun b _ => ih (fun a d hd => h a d (by simp [hd])) b

end Gives

/-- Whatever a run returns that starts with the invariant satisfies a condition, and the invariant
is still there. -/
def Yields (I : σ → Prop) (x : EStateM ε σ α) (P : α → Prop) : Prop :=
  ∀ s, I s → ∀ a t, x s = .ok a t → P a ∧ I t

theorem Gives.yields {I : σ → Prop} {x : EStateM ε σ α} {a : α} (h : Gives I x (.ok a)) :
    Yields I x fun b => b = a := by
  intro s hs b t hrun
  obtain ⟨he, hi⟩ := h.eq_ok hs hrun
  exact ⟨(Except.ok.inj he).symm, hi⟩

namespace Yields

variable {I : σ → Prop} {x : EStateM ε σ α} {f : α → EStateM ε σ β} {P : α → Prop}

theorem pure {a : α} (h : P a) : Yields I (Pure.pure a : EStateM ε σ α) P := by
  intro s hs b t hrun
  obtain ⟨rfl, rfl⟩ := run_pure_ok.mp hrun
  exact ⟨h, hs⟩

theorem bind {Q : β → Prop} (hx : Yields I x P) (hf : ∀ a, P a → Yields I (f a) Q) :
    Yields I (x >>= f) Q := by
  intro s hs b u hrun
  obtain ⟨a, t, ha, hb⟩ := run_bind_ok.mp hrun
  obtain ⟨hp, hi⟩ := hx s hs a t ha
  exact hf a hp t hi b u hb

theorem trivial (x : EStateM ε σ α) : Yields (fun _ => True) x fun _ => True :=
  fun _ _ _ _ _ => ⟨True.intro, True.intro⟩

/-- What follows a choice sees what both sides have in common. -/
theorem choose {Q : β → Prop} {c : Prop} [Decidable c] {y : EStateM ε σ α}
    (hx : c → Yields I x P) (hy : ¬c → Yields I y P) (hf : ∀ a, P a → Yields I (f a) Q) :
    Yields I (if c then x >>= f else y >>= f) Q := by
  by_cases h : c
  · rw [if_pos h]
    exact bind (hx h) hf
  · rw [if_neg h]
    exact bind (hy h) hf

theorem mono {Q : α → Prop} (h : Yields I x P) (hpq : ∀ a, P a → Q a) : Yields I x Q := by
  intro s hs a t hrun
  obtain ⟨hp, hi⟩ := h s hs a t hrun
  exact ⟨hpq a hp, hi⟩

theorem of_modify {g : σ → σ} (hg : ∀ s, I s → I (g s)) :
    Yields I (modify g : EStateM ε σ PUnit) fun _ => True := by
  intro s hs u t hrun
  cases hrun
  exact ⟨True.intro, hg s hs⟩

theorem mapM {γ : Type} {g : γ → EStateM ε σ α} {Q : γ → α → Prop} {cs : List γ}
    (h : ∀ c ∈ cs, Yields I (g c) (Q c)) :
    Yields I (cs.mapM g) fun as => ∀ a ∈ as, ∃ c ∈ cs, Q c a := by
  induction cs with
  | nil => exact pure (by simp)
  | cons c cs ih =>
    rw [List.mapM_cons]
    refine bind (h c (by simp)) fun a ha => ?_
    refine bind (ih fun d hd => h d (by simp [hd])) fun as has => pure ?_
    rw [List.forall_mem_cons]
    refine ⟨⟨c, by simp, ha⟩, fun b hb => ?_⟩
    obtain ⟨d, hd, hq⟩ := has b hb
    exact ⟨d, by simp [hd], hq⟩

end Yields

end

/-- A computation that reports records gives a result if that result does not depend on what was
reported before. -/
abbrev Traced.Gives {α : Type} (x : Traced α) (v : Except Fault α) : Prop :=
  PrintGen.Gives (fun _ => True) x v

theorem report_gives (level : Level) (component : Component) (message : String) :
    Traced.Gives (report level component message) (.ok ()) :=
  Gives.of_modify fun _ _ => trivial

theorem Traced.ofExcept_gives {α : Type} (v : Except Fault α) :
    Traced.Gives (Traced.ofExcept v) v := by
  cases v with
  | ok a => exact Gives.pure a
  | error e => exact Gives.throw e

end PrintGen
