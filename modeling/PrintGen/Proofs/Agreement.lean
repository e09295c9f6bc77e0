import PrintGen.Proofs.Binding

/-!
# Lookups that agree

Two tables in which every lookup finds the same, although one of them may show its using directives
and references in another form. Scopes are compared level by level: marks may differ, but the
directives that are seen from a level have the same aliases and targets on both sides. Nothing is
assumed of the names: where one cannot be read, both lookups stop at the same fault. What either
side keeps of the directives met before does not matter.

A table agrees with itself; that is to say that no lookup depends on what was looked up before.
-/

namespace PrintGen

open Syntax Symbols

section

variable {ε σ α β : Type} {I J : σ → Prop}

/-- What a run comes to, without the state that it leaves. -/
def resultOf : EStateM.Result ε σ α → Except ε α
  | .ok a _ => .ok a
  | .error e _ => .error e

theorem Gives.resultOf_eq {x : EStateM ε σ α} {v : Except ε α} (h : Gives I x v) {s : σ}
    (hs : I s) : resultOf (x s) = v := by
  cases v with
  | ok a =>
    obtain ⟨t, ht, _⟩ := h s hs
    rw [ht, resultOf]
  | error e =>
    obtain ⟨t, ht⟩ := h s hs
    rw [ht, resultOf]

/-- Two computations give the same result, each under an invariant of its own. -/
def Agree (I J : σ → Prop) (x y : EStateM ε σ α) : Prop :=
  ∃ v, Gives I x v ∧ Gives J y v

namespace Agree

variable {x y : EStateM ε σ α}

theorem pure (a : α) : Agree I J (Pure.pure a : EStateM ε σ α) (Pure.pure a) :=
  ⟨.ok a, Gives.pure a, Gives.pure a⟩

theorem bind {f g : α → EStateM ε σ β} (hx : Agree I J x y) (hf : ∀ a, Agree I J (f a) (g a)) :
    Agree I J (x >>= f) (y >>= g) := by
  obtain ⟨v, hv, hv'⟩ := hx
  choose w hw hw' using hf
  exact ⟨v >>= w, hv.bind fun a _ => hw a, hv'.bind fun a _ => hw' a⟩

/-- What follows a choice agrees if both sides of the choice do. -/
theorem choose {c : Prop} [Decidable c] {x' y' : EStateM ε σ α} {f g : α → EStateM ε σ β}
    (hx : c → Agree I J x y) (hy : ¬c → Agree I J x' y') (hf : ∀ a, Agree I J (f a) (g a)) :
    Agree I J (if c then x >>= f else x' >>= f) (if c then y >>= g else y' >>= g) := by
  by_cases h : c
  · rw [if_pos h, if_pos h]
    exact bind (hx h) hf
  · rw [if_neg h, if_neg h]
    exact bind (hy h) hf

theorem mapM {γ : Type} {f g : γ → EStateM ε σ α} (h : ∀ c, Agree I J (f c) (g c))
    (cs : List γ) : Agree I J (cs.mapM f) (cs.mapM g) := by
  choose v hv hv' using h
  exact ⟨cs.mapM v, Gives.mapM fun c _ => hv c, Gives.mapM fun c _ => hv' c⟩

/-- What both computations give can be seen from one run. -/
theorem gives (h : Agree I J x y) {s : σ} (hs : I s) :
    Gives I x (resultOf (x s)) ∧ Gives J y (resultOf (x s)) := by
  obtain ⟨v, hx, hy⟩ := h
  rw [hx.resultOf_eq hs]
  exact ⟨hx, hy⟩

end Agree

end

namespace Symbols

/-- What a step of binding names comes to when nothing is known beforehand. -/
def alone {α : Type} (x : Binding α) : Except Fault α :=
  resultOf (x .none)

/-- The results for the members of a list, up to the first fault. -/
def untilFault {α β : Type} (v : α → Except Fault β) : List α → List β × Option Fault
  | [] => ([], none)
  | a :: rest =>
    match v a with
    | .ok b => (b :: (untilFault v rest).1, (untilFault v rest).2)
    | .error fault => ([], some fault)

/-- Names are bound one after the other, each as if it were the only one. -/
theorem bindEach_eq {α β : Type} {I : Findings → Prop} {bind : α → Binding β}
    {v : α → Except Fault β} {as : List α} (h : ∀ a ∈ as, Gives I (bind a) (v a)) {f : Findings}
    (hf : I f) : ∃ g, bindEach bind as f = ((untilFault v as).1, (untilFault v as).2, g) ∧
      ((untilFault v as).2 = none → I g) := by
  induction as generalizing f with
  | nil => exact ⟨f, rfl, fun _ => hf⟩
  | cons a rest ih =>
    obtain ⟨ha, hrest⟩ := List.forall_mem_cons.mp h
    rw [untilFault]
    cases hv : v a with
    | ok b =>
      rw [hv] at ha
      obtain ⟨mid, hmid, hi⟩ := ha f hf
      obtain ⟨g, hg, hj⟩ := ih hrest hi
      refine ⟨g, ?_, hj⟩
      simp only [bindEach, hmid, hg]
    | error fault =>
      rw [hv] at ha
      obtain ⟨mid, hmid⟩ := ha f hf
      refine ⟨mid, ?_, fun hn => by cases hn⟩
      simp only [bindEach, hmid]

/-- Lists of names are bound to the same if each name is. -/
theorem bindEach_agree {α β γ : Type} {I J : Findings → Prop} {bind : α → Binding γ}
    {bind' : β → Binding γ} {as : List α} {bs : List β}
    (h : List.Forall₂ (fun a b => Agree I J (bind a) (bind' b)) as bs) {f g : Findings}
    (hf : I f) (hg : J g) : ∃ cs fault f' g', bindEach bind as f = (cs, fault, f') ∧
      bindEach bind' bs g = (cs, fault, g') ∧ (fault = none → I f' ∧ J g') := by
  induction h generalizing f g with
  | nil => exact ⟨[], none, f, g, rfl, rfl, fun _ => ⟨hf, hg⟩⟩
  | cons hab _ ih =>
    obtain ⟨v, hv, hv'⟩ := hab
    cases v with
    | ok c =>
      obtain ⟨f₁, hf₁, hi⟩ := hv f hf
      obtain ⟨g₁, hg₁, hj⟩ := hv' g hg
      obtain ⟨cs, fault, f', g', hrest, hrest', hend⟩ := ih hi hj
      refine ⟨c :: cs, fault, f', g', ?_, ?_, hend⟩
      · simp only [bindEach, hf₁, hrest]
      · simp only [bindEach, hg₁, hrest']
    | error e =>
      obtain ⟨f₁, hf₁⟩ := hv f hf
      obtain ⟨g₁, hg₁⟩ := hv' g hg
      refine ⟨[], some e, f₁, g₁, ?_, ?_, fun hn => by cases hn⟩
      · simp only [bindEach, hf₁]
      · simp only [bindEach, hg₁]

theorem forall₂_imp_mem {α β : Type} {R S : α → β → Prop} {as : List α} {bs : List β}
    (h : List.Forall₂ R as bs) (hs : ∀ a ∈ as, ∀ b ∈ bs, R a b → S a b) :
    List.Forall₂ S as bs := by
  induction h with
  | nil => exact .nil
  | cons hab _ ih =>
    exact .cons (hs _ (by simp) _ (by simp) hab)
      (ih fun a ha b hb => hs a (by simp [ha]) b (by simp [hb]))

theorem map_eq_of_forall₂ {α β γ : Type} {f : α → γ} {g : β → γ} {as : List α} {bs : List β}
    (h : List.Forall₂ (fun a b => g b = f a) as bs) : bs.map g = as.map f := by
  induction h with
  | nil => rfl
  | cons hab _ ih => rw [List.map_cons, List.map_cons, hab, ih]

/-! ## The target of a directive -/

/-- The target of a using directive, or why it cannot be told. The text of the directive is only
read to report that there is no target. -/
def Table.readTarget (table : Table) (scope : Scope) (u : Using) :
    Except Fault (Option Entity) := do
  let name ← u.tree.nameOf u.target
  if (usingTarget? table scope name).isNone then
    let _ ← u.tree.text u.target
  return usingTarget? table scope name

/-- Every target that is kept was read where its directive is seen from. -/
def Sound (table : Table) (registered : Scope → Prop) (f : Findings) : Prop :=
  ∀ mark target, f.targets.lookup mark = some target → ∃ u scope, Sees table registered scope u ∧
    u.mark = mark ∧ table.readTarget scope u = .ok target

section

variable {table : Table} {registered : Scope → Prop}

theorem readTarget_unique (hc : Scoped table registered) {scope other : Scope} {u : Using}
    (h : Sees table registered scope u) (ho : Sees table registered other u) :
    table.readTarget scope u = table.readTarget other u := by
  simp only [Table.readTarget, usingTarget?_unique hc h ho]

theorem sound_none : Sound table registered .none := by
  intro mark target h
  cases h

/-- What is kept would be read again, wherever the directive is seen from. -/
theorem Sound.read (hc : Scoped table registered) {f : Findings} (h : Sound table registered f)
    {u : Using} {target : Option Entity} (hl : f.targets.lookup u.mark = some target)
    {scope : Scope} (hs : Sees table registered scope u) :
    table.readTarget scope u = .ok target := by
  obtain ⟨v, other, hother, hm, hread⟩ := h u.mark target hl
  obtain rfl : v = u := eq_of_mark hc hother.mem hs.mem hm
  rw [readTarget_unique hc hs hother, hread]

theorem Sound.add {f : Findings} (h : Sound table registered f) {scope : Scope} {u : Using}
    (hs : Sees table registered scope u) {target : Option Entity}
    (ht : table.readTarget scope u = .ok target) (trace : Trace) :
    Sound table registered ⟨f.targets ++ [(u.mark, target)], trace⟩ := by
  intro mark known hl
  rw [List.lookup_append] at hl
  cases hold : f.targets.lookup mark with
  | some old =>
    rw [hold, Option.some_or] at hl
    rw [← Option.some.inj hl]
    exact h mark old hold
  | none =>
    rw [hold, Option.none_or, List.lookup_cons] at hl
    by_cases hmark : mark = u.mark
    · rw [hmark, beq_self_eq_true] at hl
      rw [← Option.some.inj hl]
      exact ⟨u, scope, hs, hmark.symm, ht⟩
    · have hb : (mark == u.mark) = false := by simpa using hmark
      rw [hb] at hl
      cases hl

theorem ofExcept_gives {α : Type} (v : Except Fault α) :
    Gives (Sound table registered) (Binding.ofExcept v) v := by
  cases v with
  | ok a => exact Gives.pure a
  | error e => exact Gives.throw e

theorem note_sound (message : String) : Gives (Sound table registered) (note message) (.ok ()) :=
  Gives.of_modify fun _ h => h

/-- **A directive gives its target whatever is known already.** -/
theorem targetOf_reads (hc : Scoped table registered) {scope : Scope} {u : Using}
    (hs : Sees table registered scope u) :
    Gives (Sound table registered) (targetOf table scope u) (table.readTarget scope u) := by
  have hkeep : ∀ {target : Option Entity}, table.readTarget scope u = .ok target →
      Gives (Sound table registered) (do
        modify fun f => { f with targets := f.targets ++ [(u.mark, target)] }
        return target : Binding (Option Entity)) (.ok target) :=
    fun ht => Gives.after (Gives.of_modify fun f hf => hf.add hs ht f.trace) (Gives.pure _)
  have hfresh : Gives (Sound table registered) (freshTarget table scope u)
      (table.readTarget scope u) := by
    refine Gives.bind (ofExcept_gives _) fun name hname => ?_
    rw [keepTarget]
    split
    · rename_i hnone
      refine Gives.bind (ofExcept_gives _) fun text htext => Gives.after (note_sound _) (hkeep ?_)
      rw [Table.readTarget, hname, except_ok_bind, if_pos hnone, htext]
      rfl
    · rename_i hsome
      refine hkeep ?_
      rw [Table.readTarget, hname, except_ok_bind, if_neg hsome]
      rfl
  refine Gives.of_run fun f hf => ?_
  cases hl : f.targets.lookup u.mark with
  | some known =>
    refine ⟨pure known, targetOf_known hl, ?_⟩
    rw [hf.read hc hl hs]
    exact Gives.pure known
  | none => exact ⟨_, targetOf_unknown hl, hfresh⟩

end

/-! ## Two tables with the same lookups -/

/-- Both tables have the same namespaces, and the same types under the segments that are asked
for. -/
structure SameSymbols (table other : Table) (asked : Segment → Prop) : Prop where
  namespaces : ∀ n, other.hasNamespace n = table.hasNamespace n
  members : ∀ c s, asked s → other.memberType? c s = table.memberType? c s

/-- Two tables with the same symbols, each with levels of its own. -/
structure SideBySide (table other : Table) (asked : Segment → Prop)
    (registered registered' : Scope → Prop) : Prop extends SameSymbols table other asked where
  levels : Scoped table registered
  levels_other : Scoped other registered'

/-- Two using directives, one of each table, that do the same wherever they stand. -/
structure SameDirective (table other : Table) (u v : Using) : Prop where
  aliasName : v.aliasName = u.aliasName
  isStatic : v.isStatic = u.isStatic
  target : ∀ scope, other.readTarget scope v = table.readTarget scope u

/-- Two scopes, one of each table, with levels in the same namespaces and with the same
directives. -/
inductive SameLevels (table other : Table) : Scope → Scope → Prop
  | nil : SameLevels table other [] []
  | cons {frame frame' outer outer'} (home : frame'.home = frame.home)
      (isFile : frame'.isFile = frame.isFile)
      (usings : List.Forall₂ (SameDirective table other) (table.usingsOf frame)
        (other.usingsOf frame'))
      (rest : SameLevels table other outer outer') :
      SameLevels table other (frame :: outer) (frame' :: outer')

/-- Under a name both tables have the same types that count. -/
def SameMembers (table other : Table) (counts : TypePath → Bool) (s : Segment) : Prop :=
  ∀ c, viable? counts (other.memberType? c s) = viable? counts (table.memberType? c s)

section

variable {table other : Table} {asked : Segment → Prop} {registered registered' : Scope → Prop}

/-- Both lookups give the same, whatever each of them knows already. -/
abbrev AgreeIn (table other : Table) (registered registered' : Scope → Prop) {α : Type}
    (x y : Binding α) : Prop :=
  Agree (Sound table registered) (Sound other registered') x y

theorem alone_eq_of_agree {α : Type} {x y : Binding α}
    (h : AgreeIn table other registered registered' x y) : alone y = alone x := by
  obtain ⟨v, hx, hy⟩ := h
  rw [alone, alone, hx.resultOf_eq sound_none, hy.resultOf_eq sound_none]

/-- Where a reading fails, what would follow does not matter. -/
theorem ofExcept_agree {α β : Type} (v : Except Fault α) {f g : α → Binding β}
    (hf : ∀ a, v = .ok a → AgreeIn table other registered registered' (f a) (g a)) :
    AgreeIn table other registered registered' (Binding.ofExcept v >>= f)
      (Binding.ofExcept v >>= g) := by
  cases v with
  | error e =>
    have hstop : ∀ (t : Table) (known : Scope → Prop) (k : α → Binding β),
        Gives (Sound t known) (Binding.ofExcept (.error e) >>= k) (.error e) :=
      fun t known k => Gives.bind (w := fun _ => .error e) (Gives.throw e) fun a ha => by cases ha
    exact ⟨.error e, hstop table registered f, hstop other registered' g⟩
  | ok a => exact hf a rfl

theorem note_agree (message message' : String) :
    AgreeIn table other registered registered' (note message) (note message') :=
  ⟨.ok (), note_sound message, note_sound message'⟩

theorem SameMembers.enclosed {counts : TypePath → Bool} {s : Segment}
    (h : SameMembers table other counts s) (t : TypePath) :
    enclosed? other counts s t = enclosed? table counts s t := by
  induction t with
  | top home own => exact h _
  | nested outer own ih => rw [enclosed?, enclosed?, h, ih]

theorem SameMembers.imported {counts : TypePath → Bool} {s : Segment}
    (h : SameMembers table other counts s) {u v : Using} (hs : v.isStatic = u.isStatic)
    (target : Option Entity) :
    viable? counts (imported? other s v target) = viable? counts (imported? table s u target) := by
  cases target with
  | none => rfl
  | some e =>
    cases e with
    | ofNamespace n =>
      rw [imported?, imported?, hs]
      split
      · rfl
      · exact h _
    | ofType t =>
      rw [imported?, imported?, hs]
      split
      · exact h _
      · rfl

namespace SameSymbols

variable (h : SameSymbols table other asked)

include h

theorem sameMembers {s : Segment} (hs : asked s) (counts : TypePath → Bool) :
    SameMembers table other counts s :=
  fun c => by rw [h.members c s hs]

theorem descend {s : Segment} (hs : asked s) (c : Entity) :
    other.descend? c s = table.descend? c s := by
  cases c with
  | ofNamespace n => rw [Table.descend?, Table.descend?, h.namespaces, h.members _ s hs]
  | ofType t => rw [Table.descend?, Table.descend?, h.members _ s hs]

theorem descendAll {segments : List Segment} (hs : ∀ s ∈ segments, asked s)
    (start : Option Entity) :
    descendAll? other start segments = descendAll? table start segments := by
  induction segments generalizing start with
  | nil => rfl
  | cons s rest ih =>
    obtain ⟨hhead, hrest⟩ := List.forall_mem_cons.mp hs
    have hstep : (start.bind fun c => other.descend? c s) =
        start.bind fun c => table.descend? c s := by simp only [h.descend hhead]
    rw [descendAll?, List.foldl_cons, hstep]
    exact ih hrest _

theorem usingTarget {name : QualifiedName} (hs : ∀ s ∈ name.segments, asked s) (scope : Scope) :
    usingTarget? other scope name = usingTarget? table scope name := by
  rw [usingTarget?, usingTarget?]
  split
  · rfl
  · rename_i head rest hsegments
    rw [hsegments] at hs
    obtain ⟨hhead, hrest⟩ := List.forall_mem_cons.mp hs
    simp only [visible?, h.descend hhead, h.descendAll hrest]

/-- Directives that write the same have the same target, or fail in the same way. -/
theorem readTarget {u v : Using} (hn : v.tree.nameOf v.target = u.tree.nameOf u.target)
    (ht : v.tree.text v.target = u.tree.text u.target)
    (hs : ∀ name, u.tree.nameOf u.target = .ok name → ∀ s ∈ name.segments, asked s)
    (scope : Scope) : other.readTarget scope v = table.readTarget scope u := by
  rw [Table.readTarget, Table.readTarget, hn, ht]
  cases hname : u.tree.nameOf u.target with
  | error e => rfl
  | ok name => rw [except_ok_bind, except_ok_bind, h.usingTarget (hs name hname)]

end SameSymbols

/-! ### Scopes with the same levels -/

theorem SameLevels.visible {scope scope' : Scope} (h : SameLevels table other scope scope')
    (known : Table) (s : Segment) : visible? known s scope' = visible? known s scope := by
  induction h with
  | nil => rfl
  | cons home _ _ _ ih =>
    simp only [visible?, List.findSome?_cons, home]
    rw [visible?, visible?] at ih
    rw [ih]

/-- A directive has the same target in both scopes. -/
theorem SameLevels.readTarget {scope scope' : Scope} (h : SameLevels table other scope scope')
    (known : Table) (u : Using) : known.readTarget scope' u = known.readTarget scope u := by
  have hvisible : ∀ s, visible? known s (targetScope scope') =
      visible? known s (targetScope scope) := by
    intro s
    cases h with
    | nil => rfl
    | cons home isFile usings rest =>
      rw [targetScope, targetScope, isFile]
      split
      · exact (SameLevels.cons home isFile usings rest).visible known s
      · exact rest.visible known s
  have htarget : ∀ name, usingTarget? known scope' name = usingTarget? known scope name := by
    intro name
    simp only [usingTarget?, hvisible]
  simp only [Table.readTarget, htarget]

theorem forall₂_filter_alias {us vs : List Using} (h : List.Forall₂ (SameDirective table other) us vs)
    (a : Option String) : List.Forall₂ (SameDirective table other)
      (us.filter fun u => u.aliasName = a) (vs.filter fun v => v.aliasName = a) := by
  induction h with
  | nil => exact .nil
  | cons hu _ ih =>
    simp only [List.filter_cons, hu.aliasName]
    split
    · exact .cons hu ih
    · exact ih

theorem forall₂_find?_alias {us vs : List Using} (h : List.Forall₂ (SameDirective table other) us vs)
    (a : Option String) : Option.Rel (SameDirective table other)
      (us.find? fun u => u.aliasName = a) (vs.find? fun v => v.aliasName = a) := by
  induction h with
  | nil => exact .none
  | cons hu _ ih =>
    simp only [List.find?_cons, hu.aliasName]
    split
    · exact .some hu
    · exact ih

namespace SideBySide

variable (h : SideBySide table other asked registered registered')

include h

section

variable {frame frame' : Frame} {outer outer' : Scope}
  (hl : SameLevels table other (frame :: outer) (frame' :: outer'))
  (hr : registered (frame :: outer)) (hr' : registered' (frame' :: outer'))

include hl hr hr'

theorem targetOf {u v : Using} (hd : SameDirective table other u v)
    (hu : u ∈ table.usingsOf frame) (hv : v ∈ other.usingsOf frame') :
    AgreeIn table other registered registered' (targetOf table (frame :: outer) u)
      (targetOf other (frame' :: outer') v) := by
  have hread := targetOf_reads h.levels ⟨hr, frame, outer, rfl, hu⟩
  have hread' := targetOf_reads h.levels_other ⟨hr', frame', outer', rfl, hv⟩
  rw [hl.readTarget, hd.target] at hread'
  exact ⟨_, hread, hread'⟩

theorem firstTarget (counts : TypePath → Bool) {us vs : List Using}
    (hd : List.Forall₂ (SameDirective table other) us vs) (hus : us ⊆ table.usingsOf frame)
    (hvs : vs ⊆ other.usingsOf frame') :
    AgreeIn table other registered registered' (firstTarget table counts (frame :: outer) us)
      (firstTarget other counts (frame' :: outer') vs) := by
  induction hd with
  | nil => exact Agree.pure _
  | cons hu _ ih =>
    obtain ⟨hmem, hrest⟩ := List.cons_subset.mp hus
    obtain ⟨hmem', hrest'⟩ := List.cons_subset.mp hvs
    rw [Symbols.firstTarget, Symbols.firstTarget]
    refine Agree.bind (h.targetOf hl hr hr' hu hmem hmem') fun target => ?_
    split
    · exact Agree.pure _
    · exact ih hrest hrest'

theorem importedTypes {counts : TypePath → Bool} {s : Segment}
    (hm : SameMembers table other counts s) {us vs : List Using}
    (hd : List.Forall₂ (SameDirective table other) us vs) (hus : us ⊆ table.usingsOf frame)
    (hvs : vs ⊆ other.usingsOf frame') (found : List TypePath) :
    AgreeIn table other registered registered'
      (importedTypes table counts s (frame :: outer) us found)
      (importedTypes other counts s (frame' :: outer') vs found) := by
  induction hd generalizing found with
  | nil => exact Agree.pure _
  | cons hu _ ih =>
    obtain ⟨hmem, hrest⟩ := List.cons_subset.mp hus
    obtain ⟨hmem', hrest'⟩ := List.cons_subset.mp hvs
    rw [Symbols.importedTypes, Symbols.importedTypes]
    refine Agree.bind (h.targetOf hl hr hr' hu hmem hmem') fun target => ?_
    rw [hm.imported hu.isStatic]
    split
    · exact ih hrest hrest' _
    · exact ih hrest hrest' _

theorem inUsings {counts : TypePath → Bool} {s : Segment}
    (hm : SameMembers table other counts s) :
    AgreeIn table other registered registered'
      (inUsings table counts s (frame :: outer) frame)
      (inUsings other counts s (frame' :: outer') frame') := by
  have hd : List.Forall₂ (SameDirective table other) (table.usingsOf frame)
      (other.usingsOf frame') := by
    cases hl with
    | cons _ _ usings _ => exact usings
  rw [Symbols.inUsings, Symbols.inUsings]
  refine Agree.choose (fun _ => ?_) (fun _ => Agree.pure none) fun aliased => ?_
  · exact h.firstTarget hl hr hr' counts (forall₂_filter_alias hd _) (List.filter_subset_self _)
      (List.filter_subset_self _)
  · cases aliased with
    | some target => exact Agree.pure _
    | none =>
      refine Agree.bind (h.importedTypes hl hr hr' hm (forall₂_filter_alias hd _)
        (List.filter_subset_self _) (List.filter_subset_self _) _) fun found => ?_
      split
      · exact Agree.pure _
      · exact Agree.pure _
      · exact Agree.bind (note_agree _ _) fun _ => Agree.pure _

end

variable {scope scope' : Scope} (hl : SameLevels table other scope scope')
  (hr : registered scope) (hr' : registered' scope')

include hl hr hr'

theorem typeInScope {counts : TypePath → Bool} {s : Segment}
    (hm : SameMembers table other counts s) :
    AgreeIn table other registered registered' (typeInScope table counts s scope)
      (typeInScope other counts s scope') := by
  induction hl with
  | nil => exact Agree.pure _
  | cons home isFile usings rest ih =>
    rw [Symbols.typeInScope, Symbols.typeInScope, home, hm]
    split
    · exact Agree.pure _
    · refine Agree.bind (h.inUsings (.cons home isFile usings rest) hr hr' hm) fun decided => ?_
      cases decided with
      | some decided => exact Agree.pure _
      | none => exact ih (h.levels.outer hr) (h.levels_other.outer hr')

theorem simpleType {counts : TypePath → Bool} {s : Segment}
    (hm : SameMembers table other counts s) (within : Option TypePath) :
    AgreeIn table other registered registered' (simpleType table counts s scope within)
      (simpleType other counts s scope' within) := by
  rw [Symbols.simpleType, Symbols.simpleType, funext hm.enclosed]
  split
  · exact Agree.pure _
  · exact h.typeInScope hl hr hr' hm

theorem headInScope {s : Segment} (hs : asked s) :
    AgreeIn table other registered registered' (headInScope table s scope)
      (headInScope other s scope') := by
  induction hl with
  | nil => exact Agree.pure _
  | cons home isFile usings rest ih =>
    rw [Symbols.headInScope, Symbols.headInScope, home, h.descend hs]
    split
    · exact Agree.pure _
    · refine Agree.bind (h.inUsings (.cons home isFile usings rest) hr hr'
        (h.sameMembers hs _)) fun decided => ?_
      cases decided with
      | some decided => exact Agree.pure _
      | none => exact ih (h.levels.outer hr) (h.levels_other.outer hr')

theorem headEntity {s : Segment} (hs : asked s) (within : Option TypePath) :
    AgreeIn table other registered registered' (headEntity table s scope within)
      (headEntity other s scope' within) := by
  rw [Symbols.headEntity, Symbols.headEntity, funext (h.sameMembers hs _).enclosed]
  split
  · exact Agree.pure _
  · exact h.headInScope hl hr hr' hs

theorem aliasEntity (aliasName : String) :
    AgreeIn table other registered registered' (aliasEntity table aliasName scope)
      (aliasEntity other aliasName scope') := by
  induction hl with
  | nil => exact Agree.pure _
  | @cons frame frame' outer outer' home isFile usings rest ih =>
    have hfound := forall₂_find?_alias usings (some aliasName)
    rw [Symbols.aliasEntity, Symbols.aliasEntity]
    cases hf : (table.usingsOf frame).find? fun u => u.aliasName = some aliasName with
    | some u =>
      cases hf' : (other.usingsOf frame').find? fun u => u.aliasName = some aliasName with
      | some v =>
        rw [hf, hf'] at hfound
        cases hfound with
        | some hd =>
          exact h.targetOf (.cons home isFile usings rest) hr hr' hd
            (List.mem_of_find?_eq_some hf) (List.mem_of_find?_eq_some hf')
      | none =>
        rw [hf, hf'] at hfound
        cases hfound
    | none =>
      cases hf' : (other.usingsOf frame').find? fun u => u.aliasName = some aliasName with
      | some v =>
        rw [hf, hf'] at hfound
        cases hfound
      | none => exact ih (h.levels.outer hr) (h.levels_other.outer hr')

theorem qualifierEntity (aliasName : Option String) {qualifier : List Segment}
    (hq : ∀ s ∈ qualifier, asked s) (within : Option TypePath) :
    AgreeIn table other registered registered'
      (qualifierEntity table aliasName qualifier scope within)
      (qualifierEntity other aliasName qualifier scope' within) := by
  cases aliasName with
  | some aliasName =>
    rw [Symbols.qualifierEntity, Symbols.qualifierEntity]
    refine Agree.choose (fun _ => Agree.pure _) (fun _ => h.aliasEntity hl hr hr' aliasName)
      fun start => ?_
    dsimp only
    rw [h.descendAll hq]
    exact Agree.pure _
  | none =>
    cases qualifier with
    | nil => exact Agree.pure _
    | cons head rest =>
      obtain ⟨hhead, hrest⟩ := List.forall_mem_cons.mp hq
      rw [Symbols.qualifierEntity, Symbols.qualifierEntity]
      refine Agree.bind (h.headEntity hl hr hr' hhead within) fun start => ?_
      rw [h.descendAll hrest]
      exact Agree.pure _

theorem typeNamed {counts : TypePath → Bool} (aliasName : Option String)
    {qualifier : List Segment} (hq : ∀ s ∈ qualifier, asked s) {last : Segment}
    (hm : SameMembers table other counts last) (within : Option TypePath) :
    AgreeIn table other registered registered'
      (typeNamed table counts aliasName qualifier last scope within)
      (typeNamed other counts aliasName qualifier last scope' within) := by
  rw [Symbols.typeNamed, Symbols.typeNamed]
  split
  · exact h.simpleType hl hr hr' hm within
  · refine Agree.bind (h.qualifierEntity hl hr hr' aliasName hq within) fun container => ?_
    have hmember : viable? counts (container.bind fun c => other.memberType? c last) =
        viable? counts (container.bind fun c => table.memberType? c last) := by
      cases container with
      | none => rfl
      | some c => exact hm c
    rw [hmember]
    exact Agree.pure _

end SideBySide

end

/-- Two references, one of each table, write the same name where the same can be seen. -/
structure Corresponds (table other : Table) (r r' : Reference) : Prop where
  name : r'.site.tree.nameOf r'.site.node = r.site.tree.nameOf r.site.node
  levels : SameLevels table other r.scope r'.scope
  within : r'.within = r.within

section

variable {table other : Table} {asked : Segment → Prop} {registered registered' : Scope → Prop}
  {r r' : Reference}

/-- **A base list entry is bound to the same type in both tables.** -/
theorem SideBySide.bindType (h : SideBySide table other asked registered registered')
    (hsame : Corresponds table other r r') (hr : registered r.scope) (hr' : registered' r'.scope)
    (hasked : ∀ name, r.site.tree.nameOf r.site.node = .ok name → ∀ s ∈ name.segments,
      asked s ∧ asked ⟨withoutMark s.name, s.arity⟩) :
    AgreeIn table other registered registered' (bindType table r) (bindType other r') := by
  rw [Symbols.bindType, Symbols.bindType, hsame.name, hsame.within]
  refine ofExcept_agree _ fun name hname => ?_
  cases hl : name.segments.getLast? with
  | none => exact Agree.pure _
  | some last =>
    have hlast := (hasked name hname last (List.mem_of_getLast? hl)).2
    exact h.typeNamed hsame.levels hr hr' _
      (fun s hs => (hasked name hname s (List.dropLast_subset _ hs)).1) (h.sameMembers hlast _) _

/-- **An attribute is bound to the same class in both tables,** under whatever name the class may
be found, as long as the types that count are the same. -/
theorem SideBySide.bindAttribute (h : SideBySide table other asked registered registered')
    {counts : TypePath → Bool} (hm : ∀ s, SameMembers table other counts s)
    (hsame : Corresponds table other r r') (hr : registered r.scope) (hr' : registered' r'.scope)
    (hasked : ∀ name, r.site.tree.nameOf r.site.node = .ok name →
      ∀ s ∈ name.segments.dropLast, asked s) :
    AgreeIn table other registered registered' (bindAttribute table counts r)
      (bindAttribute other counts r') := by
  rw [Symbols.bindAttribute, Symbols.bindAttribute, hsame.name, hsame.within]
  refine ofExcept_agree _ fun name hname => ?_
  cases name.segments.getLast? with
  | none => exact Agree.pure _
  | some last =>
    have hspelled := Agree.mapM (fun spelling => h.typeNamed hsame.levels hr hr' name.aliasName
      (hasked name hname) (hm ⟨spelling, last.arity⟩) r.within) (attributeSpellings last.name)
    refine Agree.bind hspelled fun found => ?_
    split
    · exact Agree.pure _
    · exact Agree.pure _
    · exact Agree.bind (note_agree _ _) fun _ => Agree.pure _

end

/-! ## Two tables with the same names to bind -/

/-- The references of both tables correspond in order, and the same types are attribute classes. -/
structure TablePair (table other : Table) (asked : Segment → Prop)
    (registered registered' : Scope → Prop) : Prop extends
    SideBySide table other asked registered registered' where
  bases : List.Forall₂ (fun b b' => b'.type = b.type ∧ Corresponds table other b.name b'.name)
    table.bases other.bases
  attributes : List.Forall₂ (Corresponds table other) table.attributes other.attributes
  baseScopes : ∀ b ∈ table.bases, registered b.name.scope
  baseScopes_other : ∀ b ∈ other.bases, registered' b.name.scope
  attributeScopes : ∀ r ∈ table.attributes, registered r.scope
  attributeScopes_other : ∀ r ∈ other.attributes, registered' r.scope
  baseNames : ∀ b ∈ table.bases, ∀ name, b.name.site.tree.nameOf b.name.site.node = .ok name →
    ∀ s ∈ name.segments, asked s ∧ asked ⟨withoutMark s.name, s.arity⟩
  attributeNames : ∀ r ∈ table.attributes, ∀ name, r.site.tree.nameOf r.site.node = .ok name →
    ∀ s ∈ name.segments.dropLast, asked s
  classes : ∀ bound, isAttributeClass other ((table.bases.map BaseReference.type).zip bound) =
    isAttributeClass table ((table.bases.map BaseReference.type).zip bound)
  classMembers : ∀ bound s, SameMembers table other
    (isAttributeClass table ((table.bases.map BaseReference.type).zip bound)) s

/-- **Both tables are bound to the same.** -/
theorem TablePair.bindTable {table other : Table} {asked : Segment → Prop}
    {registered registered' : Scope → Prop}
    (h : TablePair table other asked registered registered') :
    (bindTable other).model.bases = (bindTable table).model.bases ∧
      (bindTable other).model.classes = (bindTable table).model.classes ∧
      (bindTable other).fault = (bindTable table).fault := by
  have hbases : List.Forall₂ (fun b b' => AgreeIn table other registered registered'
      (bindType table b.name) (bindType other b'.name)) table.bases other.bases :=
    forall₂_imp_mem h.bases fun b hb b' hb' hsame => h.bindType hsame.2 (h.baseScopes b hb)
      (h.baseScopes_other b' hb') (h.baseNames b hb)
  obtain ⟨bound, fault, f, g, hf, hg, hsound⟩ := bindEach_agree hbases sound_none sound_none
  have htypes : other.bases.map BaseReference.type = table.bases.map BaseReference.type :=
    map_eq_of_forall₂ (h.bases.imp fun _ _ hsame => hsame.1)
  simp only [Symbols.bindTable, hf, hg, htypes]
  cases fault with
  | some fault => simp
  | none =>
    obtain ⟨hsf, hsg⟩ := hsound rfl
    let counts := isAttributeClass table ((table.bases.map BaseReference.type).zip bound)
    have hattributes : List.Forall₂ (fun r r' => AgreeIn table other registered registered'
        (bindAttribute table counts r) (bindAttribute other counts r'))
        table.attributes other.attributes :=
      forall₂_imp_mem h.attributes fun r hr r' hr' hsame => h.bindAttribute (h.classMembers bound)
        hsame (h.attributeScopes r hr) (h.attributeScopes_other r' hr') (h.attributeNames r hr)
    obtain ⟨classes, fault, _, _, hf', hg', _⟩ := bindEach_agree hattributes hsf hsg
    simp only [h.classes, hf', hg', counts, and_self]

/-! ## Tables with the same levels -/

/-- Lookups in the other table find what they find in the table. The other table has the same
directives, seen through a view that keeps their meaning. -/
structure LookupMirror (table other : Table) (view : Using → Using) (asked : Segment → Prop)
    (registered : Scope → Prop) : Prop extends SameSymbols table other asked where
  levels : Scoped table registered
  levels_other : Scoped other registered
  usings : ∀ frame, other.usingsOf frame = (table.usingsOf frame).map view
  aliases : ∀ u, (view u).aliasName = u.aliasName
  statics : ∀ u, (view u).isStatic = u.isStatic
  targets : ∀ u ∈ table.usings, ∀ scope, other.readTarget scope (view u) = table.readTarget scope u

section

variable {table other : Table} {view : Using → Using} {asked : Segment → Prop}
  {registered : Scope → Prop}

theorem LookupMirror.sideBySide (h : LookupMirror table other view asked registered) :
    SideBySide table other asked registered registered :=
  { toSameSymbols := h.toSameSymbols, levels := h.levels, levels_other := h.levels_other }

theorem LookupMirror.sameLevels (h : LookupMirror table other view asked registered)
    (scope : Scope) : SameLevels table other scope scope := by
  induction scope with
  | nil => exact .nil
  | cons frame outer ih =>
    refine .cons rfl rfl ?_ ih
    rw [h.usings, List.forall₂_map_right_iff, List.forall₂_same]
    exact fun u hu => ⟨h.aliases u, h.statics u, h.targets u (mem_usingsOf hu).1⟩

/-- Two references write the same name in the same place. -/
structure SameReference (r r' : Reference) : Prop where
  name : r'.site.tree.nameOf r'.site.node = r.site.tree.nameOf r.site.node
  scope : r'.scope = r.scope
  within : r'.within = r.within

theorem LookupMirror.corresponds (h : LookupMirror table other view asked registered)
    {r r' : Reference} (hsame : SameReference r r') : Corresponds table other r r' :=
  ⟨hsame.name, hsame.scope ▸ h.sameLevels r.scope, hsame.within⟩

end

/-- The other table has the references of the table in the same order, seen through a look that
keeps what they say, and the same types are attribute classes in it. -/
structure TableMirror (table other : Table) (view : Using → Using) (look : Reference → Reference)
    (asked : Segment → Prop) (registered : Scope → Prop) : Prop extends
    LookupMirror table other view asked registered where
  bases : other.bases = table.bases.map fun b => ⟨b.type, look b.name⟩
  attributes : other.attributes = table.attributes.map look
  baseNames : ∀ b ∈ table.bases, SameReference b.name (look b.name) ∧ registered b.name.scope ∧
    ∀ name, b.name.site.tree.nameOf b.name.site.node = .ok name → ∀ s ∈ name.segments,
      asked s ∧ asked ⟨withoutMark s.name, s.arity⟩
  attributeNames : ∀ r ∈ table.attributes, SameReference r (look r) ∧ registered r.scope ∧
    ∀ name, r.site.tree.nameOf r.site.node = .ok name → ∀ s ∈ name.segments.dropLast, asked s
  classes : ∀ bound, isAttributeClass other ((table.bases.map BaseReference.type).zip bound) =
    isAttributeClass table ((table.bases.map BaseReference.type).zip bound)
  classMembers : ∀ bound s, SameMembers table other
    (isAttributeClass table ((table.bases.map BaseReference.type).zip bound)) s

/-- **Both tables are bound to the same.** -/
theorem TableMirror.bindTable {table other : Table} {view : Using → Using}
    {look : Reference → Reference} {asked : Segment → Prop} {registered : Scope → Prop}
    (h : TableMirror table other view look asked registered) :
    (bindTable other).model.bases = (bindTable table).model.bases ∧
      (bindTable other).model.classes = (bindTable table).model.classes ∧
      (bindTable other).fault = (bindTable table).fault := by
  have hbases : ∀ b ∈ other.bases, ∃ c ∈ table.bases, ⟨c.type, look c.name⟩ = b := by
    rw [h.bases]
    exact fun b hb => List.mem_map.mp hb
  have hattributes : ∀ r ∈ other.attributes, ∃ q ∈ table.attributes, look q = r := by
    rw [h.attributes]
    exact fun r hr => List.mem_map.mp hr
  have hpair : TablePair table other asked registered registered :=
    { toSideBySide := h.sideBySide
      bases := by
        rw [h.bases, List.forall₂_map_right_iff, List.forall₂_same]
        exact fun b hb => ⟨rfl, h.corresponds (h.baseNames b hb).1⟩
      attributes := by
        rw [h.attributes, List.forall₂_map_right_iff, List.forall₂_same]
        exact fun r hr => h.corresponds (h.attributeNames r hr).1
      baseScopes := fun b hb => (h.baseNames b hb).2.1
      baseScopes_other := by
        intro b hb
        obtain ⟨c, hc, rfl⟩ := hbases b hb
        exact (h.baseNames c hc).1.scope ▸ (h.baseNames c hc).2.1
      attributeScopes := fun r hr => (h.attributeNames r hr).2.1
      attributeScopes_other := by
        intro r hr
        obtain ⟨q, hq, rfl⟩ := hattributes r hr
        exact (h.attributeNames q hq).1.scope ▸ (h.attributeNames q hq).2.1
      baseNames := fun b hb => (h.baseNames b hb).2.2
      attributeNames := fun r hr => (h.attributeNames r hr).2.2
      classes := h.classes
      classMembers := h.classMembers }
  exact hpair.bindTable

end Symbols

end PrintGen
