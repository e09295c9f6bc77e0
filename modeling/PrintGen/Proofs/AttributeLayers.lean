import PrintGen.Proofs.AttributeClasses
import PrintGen.Proofs.BindingOrder
import PrintGen.Proofs.QualifiedNames
import Mathlib.Data.List.ReduceOption

/-!
# Attribute names, layer by layer

Without aliases, an unqualified name is looked for in one layer after the other: the types nested in
the types around it, then, from the inside out, the types of each namespace and those that the using
directives of its level bring in. The first layer with an attribute class of that name decides; if
it has several, the name is ambiguous. An attribute may be written with or without its suffix, and
both spellings are looked for. A spelling that is ambiguous is then treated like one that is not
found, so that the other one is taken, although the name means more than one class.
-/

namespace PrintGen.Symbols

open Syntax

/-! ## Layers -/

/-- Where a simple name is looked for: among the types nested in a type, the types of a namespace,
or those that the using directives of the innermost level of a scope bring in. -/
inductive Layer where
  | inType (outer : TypePath)
  | inNamespace (home : Namespace)
  | throughUsings (scope : Scope)

/-- The types around a place, from the inside out. -/
def layersOfType : TypePath → List Layer
  | .top home own => [.inType (.top home own)]
  | .nested outer own => .inType (.nested outer own) :: layersOfType outer

/-- The levels of a scope, from the inside out, each with its namespace and after it its using
directives. -/
def layersOfScope : Scope → List Layer
  | [] => []
  | frame :: outer =>
    .inNamespace frame.home :: .throughUsings (frame :: outer) :: layersOfScope outer

/-- All layers that can be seen from a place. -/
def layers (scope : Scope) (within : Option TypePath) : List Layer :=
  within.elim [] layersOfType ++ layersOfScope scope

/-- The type of a given name that a directive brings in: one in the namespace that it names, or for
a static directive one that is nested in the type that it names. -/
def Using.brings (u : Using) (s : Segment) : Option Entity → Option TypePath
  | some (.ofNamespace n) => if u.isStatic then none else some (.top n s)
  | some (.ofType t) => if u.isStatic then some (.nested t s) else none
  | none => none

namespace Table

/-- The types of a given name that directives bring in, declared or not. -/
def broughtIn (table : Table) (s : Segment) (scope : Scope) (us : List Using) :
    Except Fault (List TypePath) := do
  let brought ← us.mapM fun u => return u.brings s (← table.readTarget scope u)
  return brought.reduceOption

/-- The types of a given name in a layer, declared or not. -/
def typesAt (table : Table) (s : Segment) : Layer → Except Fault (List TypePath)
  | .inType outer => .ok [.nested outer s]
  | .inNamespace home => .ok [.top home s]
  | .throughUsings [] => .ok []
  | .throughUsings (frame :: outer) => table.broughtIn s (frame :: outer) (table.usingsOf frame)

/-- Whether a type is declared and counts. -/
def admits (table : Table) (counts : TypePath → Bool) (t : TypePath) : Bool :=
  table.hasType t && counts t

/-- Those of some types that are declared and count, each of them once. -/
def distinct (table : Table) (counts : TypePath → Bool) (ts : List TypePath) : List TypePath :=
  (ts.filter (table.admits counts)).eraseDups

/-- The distinct types of a given name that count, in the first layer that has any. -/
def foremost (table : Table) (counts : TypePath → Bool) (s : Segment) :
    List Layer → Except Fault (List TypePath)
  | [] => .ok []
  | layer :: further => do
    let found := table.distinct counts (← table.typesAt s layer)
    if found = [] then table.foremost counts s further else return found

end Table

/-! ## Lookups find what the layers have -/

section

variable {table : Table} {registered : Scope → Prop} {counts : TypePath → Bool} {s : Segment}

theorem viable?_type? (t : TypePath) :
    viable? counts (table.type? t) = (some t).filter (table.admits counts) := by
  rw [viable?, Table.type?, Option.filter_some, Table.admits]
  cases table.hasType t with
  | true => exact Option.filter_some
  | false => rfl

theorem distinct_singleton (t : TypePath) :
    table.distinct counts [t] = (viable? counts (table.type? t)).toList := by
  rw [viable?_type?, Table.distinct, Option.filter_some]
  cases h : table.admits counts t with
  | true =>
    rw [List.filter_cons_of_pos h]
    rfl
  | false =>
    rw [List.filter_cons_of_neg (by rw [h]; simp)]
    rfl

theorem viable?_imported (u : Using) (target : Option Entity) :
    viable? counts (imported? table s u target) =
      (u.brings s target).filter (table.admits counts) := by
  cases target with
  | none => rfl
  | some e =>
    cases e with
    | ofNamespace n =>
      rw [imported?, Using.brings]
      split
      · rfl
      · exact viable?_type? _
    | ofType t =>
      rw [imported?, Using.brings]
      split
      · exact viable?_type? _
      · rfl

theorem filter_toList {α : Type} (o : Option α) (p : α → Bool) :
    o.toList.filter p = (o.filter p).toList := by
  cases o with
  | none => rfl
  | some a => cases h : p a <;> simp [h, Option.filter]

theorem broughtIn_nil (scope : Scope) : table.broughtIn s scope [] = .ok [] :=
  rfl

theorem broughtIn_cons (scope : Scope) (u : Using) (rest : List Using) :
    table.broughtIn s scope (u :: rest) = (do
      let target ← table.readTarget scope u
      return (u.brings s target).toList ++ (← table.broughtIn s scope rest)) := by
  simp only [Table.broughtIn, List.mapM_cons, bind_assoc, pure_bind]
  congr
  funext target
  congr
  funext brought
  cases u.brings s target <;> rfl

/-- Types are found one after the other; a type that was found before is not listed again. -/
theorem importedTypes_reads (hc : Scoped table registered) {scope : Scope} {us : List Using}
    (hs : ∀ u ∈ us, Sees table registered scope u) (before : List TypePath) :
    Gives (Sound table registered) (importedTypes table counts s scope us before.eraseDups)
      (do return (before ++ (← table.broughtIn s scope us).filter
        (table.admits counts)).eraseDups) := by
  induction us generalizing before with
  | nil =>
    rw [broughtIn_nil, except_ok_bind, List.filter_nil, List.append_nil]
    exact Gives.pure _
  | cons u rest ih =>
    obtain ⟨hu, hrest⟩ := List.forall_mem_cons.mp hs
    rw [importedTypes, broughtIn_cons, bind_assoc]
    refine Gives.bind (targetOf_reads hc hu) fun target _ => ?_
    rw [viable?_imported, bind_assoc]
    simp only [pure_bind, List.filter_append, filter_toList]
    cases (u.brings s target).filter (table.admits counts) with
    | none => exact ih hrest before
    | some t =>
      have hlater := ih hrest (before ++ [t])
      have hmem : (before.eraseDups.contains t = true) = (t ∈ before) := by
        rw [List.contains_iff_mem, List.mem_eraseDups]
      simp only [eraseDups_concat, List.append_assoc] at hlater
      simp only [hmem]
      exact hlater

/-- What the using directives of a level decide, if none of them is an alias. -/
theorem inUsings_reads (hc : Scoped table registered)
    (halias : ∀ u ∈ table.usings, u.aliasName = none) {frame : Frame} {outer : Scope}
    (hr : registered (frame :: outer)) :
    Gives (Sound table registered) (inUsings table counts s (frame :: outer) frame)
      (do return decision (table.distinct counts
        (← table.typesAt s (.throughUsings (frame :: outer))))) := by
  have hnone : ∀ u ∈ table.usingsOf frame, u.aliasName = none :=
    fun u hu => halias u (mem_usingsOf hu).1
  have hall : ((table.usingsOf frame).filter fun u => u.aliasName = none) =
      table.usingsOf frame :=
    List.filter_eq_self.mpr fun u hu => by simpa using hnone u hu
  have haliased : ((table.usingsOf frame).filter fun u => u.aliasName = some s.name) = [] :=
    List.filter_eq_nil_iff.mpr fun u hu => by simp [hnone u hu]
  have hsees : ∀ u ∈ table.usingsOf frame, Sees table registered (frame :: outer) u :=
    fun u hu => ⟨hr, frame, outer, rfl, hu⟩
  have hvalue : (do return decision (table.distinct counts
        (← table.typesAt s (.throughUsings (frame :: outer))))) =
      (do return ([] ++ (← table.broughtIn s (frame :: outer) (table.usingsOf frame)).filter
        (table.admits counts)).eraseDups : Except Fault _) >>= fun found =>
          .ok (decision found) := by
    rw [bind_assoc]
    rfl
  rw [inUsings, hall, haliased, hvalue]
  split
  all_goals
    refine Gives.after (Gives.pure none) (Gives.bind (importedTypes_reads hc hsees []) ?_)
    intro found _
    split
    · exact Gives.pure _
    · exact Gives.pure _
    · rename_i hnil hone
      rw [decision]
      · exact Gives.after (note_sound _) (Gives.pure _)
      · exact hnil
      · exact hone

theorem foremost_cons (layer : Layer) (further : List Layer) :
    table.foremost counts s (layer :: further) = table.typesAt s layer >>= fun ts =>
      if table.distinct counts ts = [] then table.foremost counts s further
      else .ok (table.distinct counts ts) :=
  rfl

/-- A layer with one type at most decides, or the search goes on. -/
theorem foremost_single {layer : Layer} {t : TypePath} (h : table.typesAt s layer = .ok [t])
    (further : List Layer) : table.foremost counts s (layer :: further) =
      (viable? counts (table.type? t)).elim (table.foremost counts s further) fun t => .ok [t] := by
  rw [foremost_cons, h, except_ok_bind, distinct_singleton]
  cases viable? counts (table.type? t) with
  | none => rfl
  | some t => rfl

theorem typeInScope_reads (hc : Scoped table registered)
    (halias : ∀ u ∈ table.usings, u.aliasName = none) {scope : Scope} (hr : registered scope) :
    Gives (Sound table registered) (typeInScope table counts s scope)
      (do return only? (← table.foremost counts s (layersOfScope scope))) := by
  induction scope with
  | nil => exact Gives.pure _
  | cons frame outer ih =>
    rw [typeInScope, layersOfScope, foremost_single rfl, Table.memberType?]
    cases viable? counts (table.type? (.top frame.home s)) with
    | some t => exact Gives.pure _
    | none =>
      have husings : Gives (Sound table registered)
          (inUsings table counts s (frame :: outer) frame) _ := inUsings_reads hc halias hr
      rw [Option.elim_none, foremost_cons]
      cases hts : table.typesAt s (.throughUsings (frame :: outer)) with
      | error fault =>
        rw [hts] at husings
        exact Gives.bind (w := fun _ => .error fault) husings fun _ h => by cases h
      | ok ts =>
        rw [hts] at husings
        refine Gives.after husings ?_
        rw [except_ok_bind]
        cases table.distinct counts ts with
        | nil => exact ih (hc.outer hr)
        | cons t more =>
          cases more with
          | nil => exact Gives.pure _
          | cons t' more => exact Gives.pure _

/-- The types around a place come before its scope. -/
theorem foremost_around (t : TypePath) (further : List Layer) :
    table.foremost counts s (layersOfType t ++ further) =
      (enclosed? table counts s t).elim (table.foremost counts s further) fun t => .ok [t] := by
  induction t with
  | top home own =>
    rw [layersOfType, List.singleton_append, foremost_single rfl]
    rfl
  | nested outer own ih =>
    rw [layersOfType, List.cons_append, foremost_single rfl, ih, enclosed?, Table.memberType?]
    cases viable? counts (table.type? (.nested (.nested outer own) s)) with
    | some t => rfl
    | none => rfl

/-- **A simple name is bound to the only type in the first layer that has one.** -/
theorem simpleType_reads (hc : Scoped table registered)
    (halias : ∀ u ∈ table.usings, u.aliasName = none) {scope : Scope} (hr : registered scope)
    (within : Option TypePath) :
    Gives (Sound table registered) (simpleType table counts s scope within)
      (do return only? (← table.foremost counts s (layers scope within))) := by
  rw [simpleType, layers]
  cases within with
  | none => exact typeInScope_reads hc halias hr
  | some t =>
    rw [Option.elim_some, foremost_around, Option.bind_some]
    cases enclosed? table counts s t with
    | some t => exact Gives.pure _
    | none => exact typeInScope_reads hc halias hr

/-! ## What a layer has -/

theorem brings_own {u : Using} {target : Option Entity} {t : TypePath}
    (h : u.brings s target = some t) : t.own = s := by
  cases target with
  | none => cases h
  | some e =>
    cases e with
    | ofNamespace n =>
      rw [Using.brings] at h
      split at h
      · cases h
      · cases h
        rfl
    | ofType outer =>
      rw [Using.brings] at h
      split at h
      · cases h
        rfl
      · cases h

theorem typesAt_own {layer : Layer} {ts : List TypePath} (h : table.typesAt s layer = .ok ts)
    {t : TypePath} (ht : t ∈ ts) : t.own = s := by
  cases layer with
  | inType outer =>
    cases h
    rw [List.mem_singleton.mp ht]
    rfl
  | inNamespace home =>
    cases h
    rw [List.mem_singleton.mp ht]
    rfl
  | throughUsings scope =>
    cases scope with
    | nil =>
      cases h
      cases ht
    | cons frame outer =>
      rw [Table.typesAt, Table.broughtIn, except_bind_ok] at h
      obtain ⟨brought, hbrought, h⟩ := h
      cases h
      obtain ⟨u, _, hu⟩ := mem_of_mapM hbrought (List.reduceOption_mem_iff.mp ht)
      obtain ⟨target, _, hu⟩ := except_bind_ok.mp hu
      exact brings_own (Except.ok.inj hu)

/-- What is found is listed once, has the name and counts. -/
theorem foremost_ok {chain : List Layer} {ts : List TypePath}
    (h : table.foremost counts s chain = .ok ts) :
    ts.Nodup ∧ ∀ t ∈ ts, t.own = s ∧ table.admits counts t = true := by
  induction chain with
  | nil =>
    cases h
    exact ⟨List.nodup_nil, by simp⟩
  | cons layer further ih =>
    rw [foremost_cons, except_bind_ok] at h
    obtain ⟨all, hall, h⟩ := h
    split at h
    · exact ih h
    · cases h
      refine ⟨nodup_eraseDups _, fun t ht => ?_⟩
      rw [Table.distinct, List.mem_eraseDups, List.mem_filter] at ht
      exact ⟨typesAt_own hall ht.1, ht.2⟩

end

/-! ## Two spellings -/

/-- What an attribute name is bound to: each spelling to its only class, and the name to the only
class that this gives. -/
def Table.eitherSpelling (table : Table) (counts : TypePath → Bool) (name : String) (arity : Nat)
    (scope : Scope) (within : Option TypePath) : Except Fault (Option TypePath) := do
  let plain ← table.foremost counts ⟨name, arity⟩ (layers scope within)
  let suffixed ← table.foremost counts ⟨name ++ "Attribute", arity⟩ (layers scope within)
  return only? ((only? plain).toList ++ (only? suffixed).toList)

section

variable {table : Table} {registered : Scope → Prop} {counts : TypePath → Bool} {name : String}
  {arity : Nat}

theorem suffixed_ne (name : String) : name ++ "Attribute" ≠ name := by
  intro he
  have hlength := congrArg (fun text => text.toList.length) he
  simp only [String.toList_append, List.length_append, Nat.add_eq_left] at hlength
  cases hlength

/-- No class is found under both spellings. -/
theorem spellings_disjoint {chain : List Layer} {plain suffixed : List TypePath}
    (h : table.foremost counts ⟨name, arity⟩ chain = .ok plain)
    (h' : table.foremost counts ⟨name ++ "Attribute", arity⟩ chain = .ok suffixed) :
    plain.Disjoint suffixed := by
  intro t ht ht'
  have hown := ((foremost_ok h).2 t ht).1
  rw [((foremost_ok h').2 t ht').1, Segment.mk.injEq] at hown
  exact suffixed_ne name hown.1

theorem only?_eq_some {α : Type} {as : List α} {a : α} : only? as = some a ↔ as = [a] := by
  cases as with
  | nil => simp [only?]
  | cons b rest => cases rest <;> simp [only?]

/-- Classes that are found under different spellings are different. -/
theorem only?_spellings {plain suffixed : List TypePath} (h : plain.Disjoint suffixed) :
    only? ((only? plain).toList ++ (only? suffixed).toList) =
      only? ([only? plain, only? suffixed].filterMap id).eraseDups := by
  cases hp : only? plain with
  | none => cases only? suffixed <;> rfl
  | some t =>
    cases hs : only? suffixed with
    | none => rfl
    | some t' =>
      have hne : t' ≠ t := by
        rintro rfl
        rw [only?_eq_some.mp hp, only?_eq_some.mp hs] at h
        exact h List.mem_cons_self List.mem_cons_self
      simp [List.eraseDups_cons, hne]

theorem bindAttribute_reads (hc : Scoped table registered)
    (halias : ∀ u ∈ table.usings, u.aliasName = none) {r : Reference} (hr : registered r.scope)
    (hname : r.site.tree.nameOf r.site.node = .ok ⟨none, [⟨name, arity⟩]⟩)
    (hmark : Unmarked name) :
    Gives (Sound table registered) (bindAttribute table counts r)
      (table.eitherSpelling counts name arity r.scope r.within) := by
  have hfound : Gives (Sound table registered) ((attributeSpellings name).mapM fun spelling =>
        typeNamed table counts none [] ⟨spelling, arity⟩ r.scope r.within)
      ((attributeSpellings name).mapM fun spelling => do
        return only? (← table.foremost counts ⟨spelling, arity⟩ (layers r.scope r.within))) :=
    Gives.mapM fun spelling _ => simpleType_reads hc halias hr r.within
  have hvalue : table.eitherSpelling counts name arity r.scope r.within =
      ((attributeSpellings name).mapM fun spelling => do
        return only? (← table.foremost counts ⟨spelling, arity⟩ (layers r.scope r.within))) >>=
          fun found => .ok (only? (found.filterMap id).eraseDups) := by
    rw [hmark.spellings, Table.eitherSpelling]
    cases hplain : table.foremost counts ⟨name, arity⟩ (layers r.scope r.within) with
    | error fault => simp only [List.mapM_cons, hplain]; rfl
    | ok plain =>
      cases hsuffixed : table.foremost counts ⟨name ++ "Attribute", arity⟩
          (layers r.scope r.within) with
      | error fault => simp only [List.mapM_cons, hplain, hsuffixed]; rfl
      | ok suffixed =>
        simp only [List.mapM_cons, List.mapM_nil, hplain, hsuffixed]
        exact congrArg Except.ok
          (only?_spellings (spellings_disjoint hplain hsuffixed))
  rw [bindAttribute, hname, hvalue]
  refine Gives.after (ofExcept_gives _) (Gives.bind hfound fun found _ => ?_)
  split
  · rename_i h
    rw [h]
    exact Gives.pure _
  · rename_i h
    rw [h]
    exact Gives.pure _
  · rename_i h
    refine Gives.after (note_sound _) ?_
    rw [only?]
    · exact Gives.pure _
    · exact h

end

/-- One spelling is ambiguous and the other is not, but is found. -/
def OneAmbiguous (plain suffixed : List TypePath) : Prop :=
  1 < plain.length ∧ suffixed.length = 1 ∨ plain.length = 1 ∧ 1 < suffixed.length

/-- Where both spellings are found but only one of them is ambiguous, the name is bound although it
means several classes. Everywhere else it is bound to the only class that it means. -/
theorem only?_append {plain suffixed : List TypePath} :
    only? ((only? plain).toList ++ (only? suffixed).toList) = only? (plain ++ suffixed) ↔
      ¬ OneAmbiguous plain suffixed := by
  rcases plain with _ | ⟨t, _ | ⟨t', more⟩⟩ <;> rcases suffixed with _ | ⟨u, _ | ⟨u', rest⟩⟩ <;>
    simp [only?, OneAmbiguous]

/-! ## The attributes of a compilation -/

theorem untilFault_zip {α β : Type} {v : α → Except Fault β} {as : List α} {a : α} {b : β}
    (h : (a, b) ∈ as.zip (untilFault v as).1) : v a = .ok b := by
  induction as with
  | nil => cases h
  | cons c rest ih =>
    rw [untilFault] at h
    cases hv : v c with
    | error fault =>
      rw [hv, List.zip_nil_right] at h
      cases h
    | ok d =>
      rw [hv, List.zip_cons_cons] at h
      rcases List.mem_cons.mp h with he | hrest
      · cases he
        exact hv
      · exact ih hrest

/-- The class that a model has for an attribute is the one that the attribute is bound to alone, and
the levels around it are known by their marks. -/
theorem recorded_alone {trees : List SourceTree} {r : Reference} {c : Option TypePath}
    (h : (r, c) ∈ (build trees).model.table.attributes.zip (build trees).model.classes) :
    alone (bindAttribute (build trees).model.table (build trees).model.isAttributeClass r) = .ok c ∧
      ∃ registered, Scoped (build trees).model.table registered ∧ registered r.scope := by
  cases hd : declareTrees trees .empty with
  | error fault table =>
    rw [build, hd, List.zip_nil_right] at h
    cases h
  | ok u table =>
    have hdeclared := declareTrees_iff.mp hd
    obtain ⟨registered, hc⟩ := hdeclared.settled settled_empty
    obtain ⟨heach, _, hbound⟩ :=
      bound_in_any_order hd (List.Perm.refl table.bases) (List.Perm.refl table.attributes)
    generalize bindInOrder table table.bases table.attributes = run at heach hbound
    have hmodel : (build trees).model = ⟨table, run.bases, run.classes⟩ := by
      rw [(build_declared hdeclared).2, hbound]
      rfl
    rw [hmodel] at h ⊢
    change (r, c) ∈ table.attributes.zip run.classes at h
    obtain ⟨f, hf, hrf⟩ := List.mem_flatMap.mp (List.of_mem_zip h).1
    refine ⟨?_, registered, hc.toScoped, hc.attributes f hf r hrf⟩
    cases hfault : (table.basesAlone table.bases).2 with
    | some fault =>
      rw [(Prod.mk.inj (heach.stopped fault hfault)).1, List.zip_nil_right] at h
      cases h
    | none =>
      have hclasses := congrArg Prod.fst (heach.classes hfault)
      dsimp only at hclasses
      rw [hclasses, Table.attributesAlone, ← heach.assigned] at h
      have hbound := untilFault_zip h
      exact hbound

/-- **Ambiguous attribute names bind to nothing, unless the other spelling is found and not
ambiguous.** Without aliases, each of the two spellings of an unqualified attribute name means the
distinct attribute classes of that name in the first layer that has any. The name is bound to the
only class that both spellings together mean, and to nothing if they mean none or several, except if
one spelling means several classes and the other one just one, which is then taken. -/
theorem attribute_names_by_layers (trees : List SourceTree)
    (halias : ∀ u ∈ (build trees).model.table.usings, u.aliasName = none) (r : Reference)
    (name : String) (arity : Nat)
    (hname : r.site.tree.nameOf r.site.node = .ok ⟨none, [⟨name, arity⟩]⟩)
    (hmark : Unmarked name) :
    let m := (build trees).model
    (Scoped m.table (· <:+ r.scope) → alone (bindAttribute m.table m.isAttributeClass r) =
      m.table.eitherSpelling m.isAttributeClass name arity r.scope r.within) ∧
    (∀ c, (r, c) ∈ m.table.attributes.zip m.classes →
      m.table.eitherSpelling m.isAttributeClass name arity r.scope r.within = .ok c) ∧
    ∀ plain suffixed,
      m.table.foremost m.isAttributeClass ⟨name, arity⟩ (layers r.scope r.within) = .ok plain →
      m.table.foremost m.isAttributeClass ⟨name ++ "Attribute", arity⟩
        (layers r.scope r.within) = .ok suffixed →
      (plain ++ suffixed).Nodup ∧ ∃ c,
        m.table.eitherSpelling m.isAttributeClass name arity r.scope r.within = .ok c ∧
        (c = only? (plain ++ suffixed) ↔ ¬ OneAmbiguous plain suffixed) := by
  intro m
  refine ⟨fun hc => ?_, fun c hmem => ?_, fun plain suffixed hplain hsuffixed => ⟨?_, ?_⟩⟩
  · exact (bindAttribute_reads hc halias (List.suffix_refl _) hname hmark).resultOf_eq sound_none
  · obtain ⟨hc, registered, hscoped, hr⟩ := recorded_alone hmem
    rw [← hc]
    exact ((bindAttribute_reads hscoped halias hr hname hmark).resultOf_eq sound_none).symm
  · exact (foremost_ok hplain).1.append (foremost_ok hsuffixed).1
      (spellings_disjoint hplain hsuffixed)
  · refine ⟨only? ((only? plain).toList ++ (only? suffixed).toList), ?_, only?_append⟩
    rw [Table.eitherSpelling, hplain, hsuffixed]
    rfl

namespace Sample

open Marker (node identifier)

/-- A directive that imports a namespace with a name of one letter. -/
def importOf (start : Nat) : Node :=
  node .usingDirective start (start + 8) none [identifier (start + 6) (start + 7) none]

/-- A namespace with a name of one letter. -/
def blockOf (start stop : Nat) (classes : List Node) : Node :=
  node .namespaceDeclaration start stop none [
    identifier (start + 10) (start + 11) (some .name),
    node .declarationList (start + 12) stop (some (.other "body")) classes]

/-- A field with an attribute, each with a name of one letter. -/
def attributedField (start : Nat) : Node :=
  node .fieldDeclaration start (start + 10) none [
    node .attributeList start (start + 3) none [
      node .attributeUse (start + 1) (start + 2) none [
        identifier (start + 1) (start + 2) (some .name)]],
    node .variableDeclaration (start + 4) (start + 9) none [
      node (.other "predefined_type") (start + 4) (start + 7) (some .type) [],
      node .variableDeclarator (start + 8) (start + 9) none [
        identifier (start + 8) (start + 9) (some .name)]]]

/-- An attribute name that means two classes and, with the suffix, one more; and another one that
means just one. -/
def twofold : SourceTree :=
  ⟨.source 0, "twofold.cs",
    ("using A; using B; using M; class C \x7b [X] int f; [Y] int g; \x7d " ++
      "namespace A \x7b class X : E \x7b \x7d \x7d " ++
      "namespace B \x7b class X : E \x7b \x7d class Y : E \x7b \x7d \x7d " ++
      "namespace M \x7b class XAttribute : E \x7b \x7d \x7d").toList, false,
    node (.other "compilation_unit") 0 181 none [
      importOf 0, importOf 9, importOf 18,
      node (.typeDeclaration .classType) 27 60 none [
        identifier 33 34 (some .name),
        node .declarationList 35 60 (some (.other "body"))
          [attributedField 37, attributedField 48]],
      blockOf 61 92 [derivedClass 75],
      blockOf 93 140 [derivedClass 107, derivedClass 123],
      blockOf 141 181 [
        node (.typeDeclaration .classType) 155 179 none [
          identifier 161 171 (some .name),
          node .baseList 172 175 none [identifier 174 175 none],
          node .declarationList 176 179 (some (.other "body")) []]]]⟩

/-- A class in a namespace, each with the given name. -/
def classIn (home name : String) : TypePath :=
  .top (.child .global home) ⟨name, 0⟩

/-- Whether an attribute of a model has a name, is bound to a class and means the given classes
without and with the suffix. -/
def records (m : Model) (name : String) (c : TypePath) (plain suffixed : List TypePath) : Bool :=
  (m.table.attributes.zip m.classes).any fun p =>
    (p.1.site.tree.nameOf p.1.site.node).toOption = some ⟨none, [⟨name, 0⟩]⟩ && p.2 = some c &&
    (m.table.foremost m.isAttributeClass ⟨name, 0⟩ (layers p.1.scope p.1.within)).toOption =
      some plain &&
    (m.table.foremost m.isAttributeClass ⟨name ++ "Attribute", 0⟩
      (layers p.1.scope p.1.within)).toOption = some suffixed

theorem of_records {m : Model} {name : String} {c : TypePath} {plain suffixed : List TypePath}
    (h : records m name c plain suffixed = true) :
    ∃ r, (r, some c) ∈ m.table.attributes.zip m.classes ∧
      r.site.tree.nameOf r.site.node = .ok ⟨none, [⟨name, 0⟩]⟩ ∧
      m.table.foremost m.isAttributeClass ⟨name, 0⟩ (layers r.scope r.within) = .ok plain ∧
      m.table.foremost m.isAttributeClass ⟨name ++ "Attribute", 0⟩ (layers r.scope r.within) =
        .ok suffixed := by
  have hok : ∀ {α : Type} {v : Except Fault α} {a : α}, v.toOption = some a → v = .ok a := by
    intro α v a hv
    cases v with
    | error fault => cases hv
    | ok b => rw [Option.some.inj hv]
  obtain ⟨⟨r, bound⟩, hmem, hp⟩ := List.any_eq_true.mp h
  simp only [Bool.and_eq_true, decide_eq_true_eq] at hp
  obtain ⟨⟨⟨hname, rfl⟩, hplain⟩, hsuffixed⟩ := hp
  exact ⟨r, hmem, hok hname, hok hplain, hok hsuffixed⟩

end Sample

theorem attribute_names_of_sample : ∃ r : Reference,
    r.site.tree.nameOf r.site.node = .ok ⟨none, [⟨"Y", 0⟩]⟩ ∧
    (build [Sample.twofold]).model.table.eitherSpelling
      (build [Sample.twofold]).model.isAttributeClass "Y" 0 r.scope r.within =
        .ok (some (Sample.classIn "B" "Y")) ∧
    some (Sample.classIn "B" "Y") = only? ([Sample.classIn "B" "Y"] ++ []) := by
  have hfacts : (∀ u ∈ (build [Sample.twofold]).model.table.usings, u.aliasName = none) ∧
      Sample.records (build [Sample.twofold]).model "Y" (Sample.classIn "B" "Y")
        [Sample.classIn "B" "Y"] [] = true := by
    decide +kernel
  obtain ⟨r, hmem, hname, hplain, hsuffixed⟩ := Sample.of_records hfacts.2
  obtain ⟨_, hrecorded, hbound⟩ := attribute_names_by_layers [Sample.twofold] hfacts.1 r "Y" 0 hname
    (by decide)
  obtain ⟨_, c, hc, honly⟩ := hbound _ _ hplain hsuffixed
  have hrec := hrecorded _ hmem
  rw [hc] at hrec
  cases hrec
  exact ⟨r, hname, hc, honly.mpr (by simp [OneAmbiguous])⟩

/-- The other attribute name means two classes, but it is bound to the one that it means with the
suffix. -/
theorem ambiguous_name_binds : ∃ r,
    (r, some (Sample.classIn "M" "XAttribute")) ∈
      (build [Sample.twofold]).model.table.attributes.zip (build [Sample.twofold]).model.classes ∧
    r.site.tree.nameOf r.site.node = .ok ⟨none, [⟨"X", 0⟩]⟩ ∧
    (build [Sample.twofold]).model.table.foremost (build [Sample.twofold]).model.isAttributeClass
      ⟨"X", 0⟩ (layers r.scope r.within) =
        .ok [Sample.classIn "A" "X", Sample.classIn "B" "X"] ∧
    (build [Sample.twofold]).model.table.foremost (build [Sample.twofold]).model.isAttributeClass
      ⟨"X" ++ "Attribute", 0⟩ (layers r.scope r.within) =
        .ok [Sample.classIn "M" "XAttribute"] :=
  Sample.of_records (by decide +kernel)

end PrintGen.Symbols
