import PrintGen.Proofs.Grouping
import PrintGen.Proofs.Outcome
import PrintGen.Symbols.Model

/-!
# Binding without memory

Lookups keep the targets of using directives once they were found. What is kept is what would be
found again: every directive is seen from one scope only, or from a file, where all scopes look the
same. Each lookup therefore gives the value of a plain function of the table, whatever was kept
before, as long as all names can be read.
-/

namespace PrintGen

open Syntax Symbols

/-- The name that a node writes; nothing if it cannot be read. -/
def Syntax.SourceTree.written (tree : SourceTree) (node : Node) : QualifiedName :=
  match tree.nameOf node with
  | .ok name => name
  | .error _ => ⟨none, []⟩

/-- Whether the name and the text of a node can be read. -/
def Syntax.SourceTree.Reads (tree : SourceTree) (node : Node) : Prop :=
  (∃ name, tree.nameOf node = .ok name) ∧ ∃ text, tree.text node = .ok text

theorem Syntax.SourceTree.Reads.nameOf {tree : SourceTree} {node : Node} (h : tree.Reads node) :
    tree.nameOf node = .ok (tree.written node) := by
  obtain ⟨⟨name, hn⟩, _⟩ := h
  rw [SourceTree.written, hn]

namespace Symbols

/-! ## The lookups as functions of the table -/

/-- The target of a using directive. -/
def Table.target (table : Table) (scope : Scope) (u : Using) : Option Entity :=
  usingTarget? table scope (u.tree.written u.target)

/-- The first target among these directives that may be meant. -/
def Table.firstTarget (table : Table) (counts : TypePath → Bool) (scope : Scope)
    (us : List Using) : Option (Option Entity) :=
  (us.map (table.target scope)).find? (aliasCounts counts)

/-- The type that a directive imports under a name, if it counts. -/
def Table.importedType? (table : Table) (counts : TypePath → Bool) (s : Segment) (scope : Scope)
    (u : Using) : Option TypePath :=
  viable? counts (imported? table s u (table.target scope u))

/-- The distinct types that these directives import under a name. -/
def Table.importedTypes (table : Table) (counts : TypePath → Bool) (s : Segment) (scope : Scope)
    (us : List Using) : List TypePath :=
  (us.filterMap (table.importedType? counts s scope)).eraseDups

/-- What the imported types decide: several of them are ambiguous. -/
def decision : List TypePath → Option (Option Entity)
  | [] => none
  | [t] => some (some (.ofType t))
  | _ => some none

/-- What the using directives of the innermost level make of a name. -/
def Table.inUsings (table : Table) (counts : TypePath → Bool) (s : Segment) (scope : Scope)
    (frame : Frame) : Option (Option Entity) :=
  (if s.arity = 0 then
      table.firstTarget counts scope
        ((table.usingsOf frame).filter fun u => u.aliasName = some s.name)
    else none).or
    (decision (table.importedTypes counts s scope
      ((table.usingsOf frame).filter fun u => u.aliasName = none)))

/-- A simple type name in the levels of a scope. -/
def Table.typeInScope (table : Table) (counts : TypePath → Bool) (s : Segment) :
    Scope → Option TypePath
  | [] => none
  | frame :: outer =>
    (viable? counts (table.memberType? (.ofNamespace frame.home) s)).or
      (match table.inUsings counts s (frame :: outer) frame with
      | some decided => Entity.type? decided
      | none => table.typeInScope counts s outer)

/-- A simple type name. -/
def Table.simpleType (table : Table) (counts : TypePath → Bool) (s : Segment) (scope : Scope)
    (within : Option TypePath) : Option TypePath :=
  (within.bind (enclosed? table counts s)).or (table.typeInScope counts s scope)

/-- The first segment of a qualified name in the levels of a scope. -/
def Table.headInScope (table : Table) (s : Segment) : Scope → Option Entity
  | [] => none
  | frame :: outer =>
    (table.descend? (.ofNamespace frame.home) s).or
      (match table.inUsings (fun _ => true) s (frame :: outer) frame with
      | some decided => decided
      | none => table.headInScope s outer)

/-- The first segment of a qualified name. -/
def Table.headEntity (table : Table) (s : Segment) (scope : Scope) (within : Option TypePath) :
    Option Entity :=
  ((within.bind (enclosed? table (fun _ => true) s)).map Entity.ofType).or
    (table.headInScope s scope)

/-- What an alias before `::` stands for. -/
def Table.aliasEntity (table : Table) (aliasName : String) : Scope → Option Entity
  | [] => none
  | frame :: outer =>
    match (table.usingsOf frame).find? fun u => u.aliasName = some aliasName with
    | some u => table.target (frame :: outer) u
    | none => table.aliasEntity aliasName outer

/-- Everything before the last segment of a qualified name. -/
def Table.qualifierEntity (table : Table) (aliasName : Option String) (qualifier : List Segment)
    (scope : Scope) (within : Option TypePath) : Option Entity :=
  match aliasName, qualifier with
  | some aliasName, _ =>
    descendAll? table (if aliasName = "global" then some (.ofNamespace .global)
      else table.aliasEntity aliasName scope) qualifier
  | none, [] => none
  | none, head :: rest => descendAll? table (table.headEntity head scope within) rest

/-- A name whose last segment is given apart. -/
def Table.typeNamed (table : Table) (counts : TypePath → Bool) (aliasName : Option String)
    (qualifier : List Segment) (last : Segment) (scope : Scope) (within : Option TypePath) :
    Option TypePath :=
  if aliasName.isNone && qualifier.isEmpty then table.simpleType counts last scope within
  else viable? counts ((table.qualifierEntity aliasName qualifier scope within).bind fun c =>
    table.memberType? c last)

/-- What a name that stands for a type is bound to. -/
def Table.boundType (table : Table) (r : Reference) : Option TypePath :=
  let name := r.site.tree.written r.site.node
  name.segments.getLast?.bind fun last =>
    table.typeNamed (fun _ => true) name.aliasName name.segments.dropLast
      ⟨withoutMark last.name, last.arity⟩ r.scope r.within

/-- The only member of a list, if there is just one. -/
def only? {α : Type} : List α → Option α
  | [a] => some a
  | _ => none

/-- What the name of an attribute is bound to. -/
def Table.boundAttribute (table : Table) (counts : TypePath → Bool) (r : Reference) :
    Option TypePath :=
  let name := r.site.tree.written r.site.node
  name.segments.getLast?.bind fun last =>
    only? (((attributeSpellings last.name).filterMap fun spelling =>
      table.typeNamed counts name.aliasName name.segments.dropLast ⟨spelling, last.arity⟩ r.scope
        r.within).eraseDups)

/-! ## What is kept is what would be found -/

/-- Scopes in which a level is known by its mark, and directives known by theirs. A level of a file
is the outermost one. -/
structure Scoped (table : Table) (registered : Scope → Prop) : Prop where
  outer : ∀ {frame outer}, registered (frame :: outer) → registered outer
  mark : ∀ {frame other : Frame} {outer others : Scope}, registered (frame :: outer) →
    registered (other :: others) → frame.mark = other.mark → frame :: outer = other :: others
  file : ∀ {frame outer}, registered (frame :: outer) → frame.isFile = true →
    frame.home = .global ∧ outer = []
  marks : (table.usings.map Using.mark).Nodup

/-- Scopes as above, with directives whose names can be read. -/
structure Coherent (table : Table) (registered : Scope → Prop) : Prop extends
    Scoped table registered where
  reads : ∀ u ∈ table.usings, u.tree.Reads u.target

/-- A directive is seen from the innermost level of a scope. -/
def Sees (table : Table) (registered : Scope → Prop) (scope : Scope) (u : Using) : Prop :=
  registered scope ∧ ∃ frame outer, scope = frame :: outer ∧ u ∈ table.usingsOf frame

/-- All targets that are kept would be found again, wherever the directive is seen from. -/
def Kept (table : Table) (registered : Scope → Prop) (f : Findings) : Prop :=
  ∀ mark target, f.targets.lookup mark = some target → ∀ u ∈ table.usings, u.mark = mark →
    ∀ scope, Sees table registered scope u → target = table.target scope u

theorem mem_usingsOf {table : Table} {frame : Frame} {u : Using} (h : u ∈ table.usingsOf frame) :
    u ∈ table.usings ∧ (u.frame = some frame.mark ∨ u.frame = none ∧ frame.isFile = true) := by
  rw [Table.usingsOf] at h
  rcases List.mem_append.mp h with hown | hglobal
  · obtain ⟨hmem, hf⟩ := List.mem_filter.mp hown
    exact ⟨hmem, .inl (by simpa using hf)⟩
  · split at hglobal
    · rename_i hfile
      obtain ⟨hmem, hf⟩ := List.mem_filter.mp hglobal
      exact ⟨hmem, .inr ⟨by simpa using hf, hfile⟩⟩
    · cases hglobal

section

variable {table : Table} {registered : Scope → Prop}

theorem Sees.mem {scope : Scope} {u : Using} (h : Sees table registered scope u) :
    u ∈ table.usings := by
  obtain ⟨_, frame, outer, _, hu⟩ := h
  exact (mem_usingsOf hu).1

/-- From a file a name leads to what it leads to in the global namespace. -/
theorem usingTarget?_file {frame other : Frame} (hf : frame.isFile = true)
    (hh : frame.home = .global) (ho : other.isFile = true) (hh' : other.home = .global)
    (name : QualifiedName) :
    usingTarget? table [frame] name = usingTarget? table [other] name := by
  simp only [usingTarget?, targetScope, hf, ho, if_true, visible?, List.findSome?_cons, hh, hh']

/-- **It does not matter where a directive is seen from.** -/
theorem usingTarget?_unique (hc : Scoped table registered) {scope other : Scope} {u : Using}
    (h : Sees table registered scope u) (ho : Sees table registered other u)
    (name : QualifiedName) : usingTarget? table scope name = usingTarget? table other name := by
  obtain ⟨hr, frame, outer, rfl, hu⟩ := h
  obtain ⟨hr', frame', outer', rfl, hu'⟩ := ho
  rcases (mem_usingsOf hu).2 with hf | ⟨hf, hfile⟩
  · rcases (mem_usingsOf hu').2 with hf' | ⟨hf', _⟩
    · rw [hf] at hf'
      rw [hc.mark hr hr' (Option.some.inj hf')]
    · rw [hf] at hf'
      cases hf'
  · rcases (mem_usingsOf hu').2 with hf' | ⟨_, hfile'⟩
    · rw [hf] at hf'
      cases hf'
    · obtain ⟨hh, rfl⟩ := hc.file hr hfile
      obtain ⟨hh', rfl⟩ := hc.file hr' hfile'
      exact usingTarget?_file hfile hh hfile' hh' name

theorem target_unique (hc : Scoped table registered) {scope other : Scope} {u : Using}
    (h : Sees table registered scope u) (ho : Sees table registered other u) :
    table.target scope u = table.target other u :=
  usingTarget?_unique hc h ho _

theorem eq_of_mark (hc : Scoped table registered) {u v : Using} (hu : u ∈ table.usings)
    (hv : v ∈ table.usings) (h : u.mark = v.mark) : u = v :=
  List.inj_on_of_nodup_map hc.marks hu hv h

theorem Kept.none : Kept table registered .none := by
  intro mark target h
  cases h

/-- Keeping one more target. -/
theorem Kept.add (hc : Scoped table registered) {f : Findings} (h : Kept table registered f)
    {scope : Scope} {u : Using} (hs : Sees table registered scope u) (trace : Trace) :
    Kept table registered ⟨f.targets ++ [(u.mark, table.target scope u)], trace⟩ := by
  intro mark target hl v hv hm scope' hs'
  rw [List.lookup_append] at hl
  cases hold : f.targets.lookup mark with
  | some known =>
    rw [hold, Option.some_or] at hl
    rw [← Option.some.inj hl]
    exact h mark known hold v hv hm scope' hs'
  | none =>
    rw [hold, Option.none_or, List.lookup_cons] at hl
    have hmark : mark = u.mark := by
      by_contra hne
      have hb : (mark == u.mark) = false := by simpa using hne
      rw [hb] at hl
      cases hl
    have hvu : v = u := eq_of_mark hc hv hs.mem (hm.trans hmark)
    rw [hmark, beq_self_eq_true] at hl
    rw [← Option.some.inj hl, hvu]
    exact target_unique hc hs (hvu ▸ hs')

theorem note_gives (message : String) :
    Gives (Kept table registered) (note message) (.ok ()) :=
  Gives.of_modify fun _ h => h

theorem Binding.ofExcept_gives {α : Type} {v : Except Fault α} {a : α} (h : v = .ok a) :
    Gives (Kept table registered) (Binding.ofExcept v) (.ok a) := by
  rw [h]
  exact Gives.pure a

/-- Keeps the target of a directive. A directive without a target is reported. -/
def keepTarget (u : Using) (target : Option Entity) : Binding (Option Entity) := do
  if target.isNone then
    let text ← Binding.ofExcept (u.tree.text u.target)
    note (u.tree.path ++ ": using directive target '" ++ text ++ "' not found")
  modify fun f => { f with targets := f.targets ++ [(u.mark, target)] }
  return target

/-- The target of a directive that is not known yet. -/
def freshTarget (table : Table) (scope : Scope) (u : Using) : Binding (Option Entity) := do
  let name ← Binding.ofExcept (u.tree.nameOf u.target)
  keepTarget u (usingTarget? table scope name)

theorem targetOf_known {scope : Scope} {u : Using} {f : Findings} {target : Option Entity}
    (h : f.targets.lookup u.mark = some target) :
    targetOf table scope u f = (pure target : Binding (Option Entity)) f := by
  rw [targetOf, run_get_bind, h]

theorem targetOf_unknown {scope : Scope} {u : Using} {f : Findings}
    (h : f.targets.lookup u.mark = none) :
    targetOf table scope u f = freshTarget table scope u f := by
  rw [targetOf, run_get_bind, h]
  rfl

theorem targetOf_gives (hc : Coherent table registered) {scope : Scope} {u : Using}
    (hs : Sees table registered scope u) :
    Gives (Kept table registered) (targetOf table scope u) (.ok (table.target scope u)) := by
  have hread := hc.reads u hs.mem
  obtain ⟨text, htext⟩ := hread.2
  have hkeep : Gives (Kept table registered) (do
      modify fun f => { f with targets := f.targets ++ [(u.mark, table.target scope u)] }
      return table.target scope u : Binding (Option Entity)) (.ok (table.target scope u)) :=
    Gives.after (Gives.of_modify fun f hf => hf.add hc.toScoped hs f.trace) (Gives.pure _)
  have hfresh : Gives (Kept table registered) (freshTarget table scope u)
      (.ok (table.target scope u)) := by
    refine Gives.after (Binding.ofExcept_gives hread.nameOf) ?_
    rw [keepTarget]
    split
    · exact Gives.after (Binding.ofExcept_gives htext) (Gives.after (note_gives _) hkeep)
    · exact hkeep
  refine Gives.of_run fun f hk => ?_
  cases hl : f.targets.lookup u.mark with
  | some known =>
    refine ⟨_, targetOf_known hl, ?_⟩
    rw [hk u.mark known hl u hs.mem rfl scope hs]
    exact Gives.pure _
  | none => exact ⟨_, targetOf_unknown hl, hfresh⟩

/-! ## Every lookup -/

theorem firstTarget_gives (hc : Coherent table registered) (counts : TypePath → Bool)
    {scope : Scope} {us : List Using} (hs : ∀ u ∈ us, Sees table registered scope u) :
    Gives (Kept table registered) (firstTarget table counts scope us)
      (.ok (table.firstTarget counts scope us)) := by
  induction us with
  | nil => exact Gives.pure _
  | cons u rest ih =>
    rw [firstTarget]
    refine Gives.after (targetOf_gives hc (hs u (by simp))) ?_
    rw [Table.firstTarget, List.map_cons, List.find?_cons]
    cases aliasCounts counts (table.target scope u) with
    | true => exact Gives.pure _
    | false => exact ih fun v hv => hs v (by simp [hv])

/-- Types are found one after the other; a type that was found before is not listed again. -/
theorem importedTypes_gives (hc : Coherent table registered) (counts : TypePath → Bool)
    (s : Segment) {scope : Scope} {us : List Using}
    (hs : ∀ u ∈ us, Sees table registered scope u) (before : List TypePath) :
    Gives (Kept table registered) (importedTypes table counts s scope us before.eraseDups)
      (.ok (before ++ us.filterMap (table.importedType? counts s scope)).eraseDups) := by
  induction us generalizing before with
  | nil =>
    rw [List.filterMap_nil, List.append_nil]
    exact Gives.pure _
  | cons u rest ih =>
    rw [importedTypes]
    refine Gives.after (targetOf_gives hc (hs u (by simp))) ?_
    have hrest := fun before => ih (fun v hv => hs v (by simp [hv])) before
    cases himp : viable? counts (imported? table s u (table.target scope u)) with
    | none =>
      have hskip : table.importedType? counts s scope u = none := himp
      rw [List.filterMap_cons_none hskip]
      exact hrest before
    | some t =>
      have hlater := hrest (before ++ [t])
      rw [eraseDups_concat, List.append_assoc] at hlater
      have htake : table.importedType? counts s scope u = some t := himp
      rw [List.filterMap_cons_some htake]
      have hmem : (before.eraseDups.contains t = true) = (t ∈ before) := by
        rw [List.contains_iff_mem, List.mem_eraseDups]
      simp only [hmem]
      exact hlater

theorem inUsings_gives (hc : Coherent table registered) (counts : TypePath → Bool) (s : Segment)
    {frame : Frame} {outer : Scope} (hr : registered (frame :: outer)) :
    Gives (Kept table registered) (inUsings table counts s (frame :: outer) frame)
      (.ok (table.inUsings counts s (frame :: outer) frame)) := by
  have hsees : ∀ p : Using → Bool, ∀ u ∈ (table.usingsOf frame).filter p,
      Sees table registered (frame :: outer) u :=
    fun p u hu => ⟨hr, frame, outer, rfl, (List.mem_filter.mp hu).1⟩
  have himported := importedTypes_gives hc counts s (hsees fun u => u.aliasName = none) []
  rw [List.nil_append] at himported
  have himports : Gives (Kept table registered) (do
      let found ← importedTypes table counts s (frame :: outer)
        ((table.usingsOf frame).filter fun u => u.aliasName = none) []
      match found with
      | [] => return none
      | [t] => return some (some (.ofType t))
      | ts =>
        note ("'" ++ s.name ++ "' is imported from several namespaces: " ++ shownTypes ts)
        return some none)
      (.ok (decision (table.importedTypes counts s (frame :: outer)
        ((table.usingsOf frame).filter fun u => u.aliasName = none)))) := by
    refine Gives.after himported ?_
    rw [Table.importedTypes]
    split
    · rename_i h
      rw [h]
      exact Gives.pure _
    · rename_i h
      rw [h]
      exact Gives.pure _
    · rename_i h h'
      refine Gives.after (note_gives _) ?_
      rw [decision]
      · exact Gives.pure _
      · exact h
      · exact h'
  rw [inUsings, Table.inUsings]
  split
  · refine Gives.after (firstTarget_gives hc counts (hsees _)) ?_
    cases table.firstTarget counts (frame :: outer)
        ((table.usingsOf frame).filter fun u => u.aliasName = some s.name) with
    | some target => exact Gives.pure _
    | none => exact himports
  · exact Gives.after (Gives.pure none) himports

theorem typeInScope_gives (hc : Coherent table registered) (counts : TypePath → Bool)
    (s : Segment) {scope : Scope} (hr : registered scope) :
    Gives (Kept table registered) (typeInScope table counts s scope)
      (.ok (table.typeInScope counts s scope)) := by
  induction scope with
  | nil => exact Gives.pure _
  | cons frame outer ih =>
    rw [typeInScope, Table.typeInScope]
    cases viable? counts (table.memberType? (.ofNamespace frame.home) s) with
    | some t => exact Gives.pure _
    | none =>
      rw [Option.none_or]
      refine Gives.after (inUsings_gives hc counts s hr) ?_
      cases table.inUsings counts s (frame :: outer) frame with
      | some decided => exact Gives.pure _
      | none => exact ih (hc.outer hr)

theorem simpleType_gives (hc : Coherent table registered) (counts : TypePath → Bool)
    (s : Segment) {scope : Scope} (hr : registered scope) (within : Option TypePath) :
    Gives (Kept table registered) (simpleType table counts s scope within)
      (.ok (table.simpleType counts s scope within)) := by
  rw [simpleType, Table.simpleType]
  cases within.bind (enclosed? table counts s) with
  | some t => exact Gives.pure _
  | none => exact typeInScope_gives hc counts s hr

theorem headInScope_gives (hc : Coherent table registered) (s : Segment) {scope : Scope}
    (hr : registered scope) :
    Gives (Kept table registered) (headInScope table s scope)
      (.ok (table.headInScope s scope)) := by
  induction scope with
  | nil => exact Gives.pure _
  | cons frame outer ih =>
    rw [headInScope, Table.headInScope]
    cases table.descend? (.ofNamespace frame.home) s with
    | some e => exact Gives.pure _
    | none =>
      rw [Option.none_or]
      refine Gives.after (inUsings_gives hc (fun _ => true) s hr) ?_
      cases table.inUsings (fun _ => true) s (frame :: outer) frame with
      | some decided => exact Gives.pure _
      | none => exact ih (hc.outer hr)

theorem headEntity_gives (hc : Coherent table registered) (s : Segment) {scope : Scope}
    (hr : registered scope) (within : Option TypePath) :
    Gives (Kept table registered) (headEntity table s scope within)
      (.ok (table.headEntity s scope within)) := by
  rw [headEntity, Table.headEntity]
  cases within.bind (enclosed? table (fun _ => true) s) with
  | some t => exact Gives.pure _
  | none => exact headInScope_gives hc s hr

theorem aliasEntity_gives (hc : Coherent table registered) (aliasName : String) {scope : Scope}
    (hr : registered scope) :
    Gives (Kept table registered) (aliasEntity table aliasName scope)
      (.ok (table.aliasEntity aliasName scope)) := by
  induction scope with
  | nil => exact Gives.pure _
  | cons frame outer ih =>
    rw [aliasEntity, Table.aliasEntity]
    cases hf : (table.usingsOf frame).find? fun u => u.aliasName = some aliasName with
    | some u =>
      exact targetOf_gives hc ⟨hr, frame, outer, rfl, List.mem_of_find?_eq_some hf⟩
    | none => exact ih (hc.outer hr)

theorem qualifierEntity_gives (hc : Coherent table registered) (aliasName : Option String)
    (qualifier : List Segment) {scope : Scope} (hr : registered scope)
    (within : Option TypePath) :
    Gives (Kept table registered) (qualifierEntity table aliasName qualifier scope within)
      (.ok (table.qualifierEntity aliasName qualifier scope within)) := by
  cases aliasName with
  | some aliasName =>
    rw [qualifierEntity, Table.qualifierEntity]
    split
    · exact Gives.after (Gives.pure _) (Gives.pure _)
    · exact Gives.after (aliasEntity_gives hc aliasName hr) (Gives.pure _)
  | none =>
    cases qualifier with
    | nil => exact Gives.pure _
    | cons head rest =>
      rw [qualifierEntity, Table.qualifierEntity]
      exact Gives.after (headEntity_gives hc head hr within) (Gives.pure _)

theorem typeNamed_gives (hc : Coherent table registered) (counts : TypePath → Bool)
    (aliasName : Option String) (qualifier : List Segment) (last : Segment) {scope : Scope}
    (hr : registered scope) (within : Option TypePath) :
    Gives (Kept table registered) (typeNamed table counts aliasName qualifier last scope within)
      (.ok (table.typeNamed counts aliasName qualifier last scope within)) := by
  rw [typeNamed, Table.typeNamed]
  split
  · exact simpleType_gives hc counts last hr within
  · exact Gives.after (qualifierEntity_gives hc aliasName qualifier hr within) (Gives.pure _)

/-- **A base is bound to what the table alone says.** -/
theorem bindType_gives (hc : Coherent table registered) {r : Reference}
    (hr : registered r.scope) (hread : r.site.tree.Reads r.site.node) :
    Gives (Kept table registered) (bindType table r) (.ok (table.boundType r)) := by
  rw [bindType, Table.boundType]
  refine Gives.after (Binding.ofExcept_gives hread.nameOf) ?_
  cases (r.site.tree.written r.site.node).segments.getLast? with
  | none => exact Gives.pure _
  | some last => exact typeNamed_gives hc _ _ _ _ hr _

/-- **An attribute is bound to what the table alone says.** -/
theorem bindAttribute_gives (hc : Coherent table registered) (counts : TypePath → Bool)
    {r : Reference} (hr : registered r.scope) (hread : r.site.tree.Reads r.site.node) :
    Gives (Kept table registered) (bindAttribute table counts r)
      (.ok (table.boundAttribute counts r)) := by
  rw [bindAttribute, Table.boundAttribute]
  refine Gives.after (Binding.ofExcept_gives hread.nameOf) ?_
  cases (r.site.tree.written r.site.node).segments.getLast? with
  | none => exact Gives.pure _
  | some last =>
    have hall := Gives.mapM fun spelling (_ : spelling ∈ attributeSpellings last.name) =>
      typeNamed_gives hc counts (r.site.tree.written r.site.node).aliasName
        (r.site.tree.written r.site.node).segments.dropLast ⟨spelling, last.arity⟩ hr r.within
    have hpure : ∀ (f : String → Option TypePath) (names : List String),
        names.mapM (fun n => (Except.ok (f n) : Except Fault (Option TypePath))) =
          .ok (names.map f) := fun f names => List.mapM_pure
    have hid : ∀ (f : String → Option TypePath) (names : List String),
        (names.map f).filterMap id = names.filterMap f := fun f names => List.filterMap_map
    rw [hpure] at hall
    refine Gives.after hall ?_
    rw [Option.bind_some, hid]
    split
    · rename_i h
      rw [h]
      exact Gives.pure _
    · rename_i h
      rw [h]
      exact Gives.pure _
    · rename_i h
      refine Gives.after (note_gives _) ?_
      rw [only?]
      · exact Gives.pure _
      · exact h

/-! ## The whole table -/

theorem bindEach_gives {α β : Type} {I : Findings → Prop} {bind : α → Binding β} {v : α → β}
    {as : List α} (h : ∀ a ∈ as, Gives I (bind a) (.ok (v a))) {f : Findings} (hf : I f) :
    ∃ g, bindEach bind as f = (as.map v, none, g) ∧ I g := by
  induction as generalizing f with
  | nil => exact ⟨f, rfl, hf⟩
  | cons a rest ih =>
    obtain ⟨mid, hmid, hi⟩ := h a (by simp) f hf
    obtain ⟨g, hg, hj⟩ := ih (fun b hb => h b (by simp [hb])) hi
    refine ⟨g, ?_, hj⟩
    simp only [bindEach, hmid, hg, List.map_cons]

end

theorem lookup_map_type {β : Type} (bases : List BaseReference) (value : BaseReference → β)
    (t : TypePath) : (bases.map fun b => (b.type, value b)).lookup t =
      (bases.find? fun b => b.type = t).map value := by
  induction bases with
  | nil => rfl
  | cons b rest ih =>
    rw [List.map_cons, List.lookup_cons]
    by_cases ht : t = b.type
    · rw [List.find?_cons_of_pos (by simp [ht])]
      simp [ht]
    · have hne : ¬ b.type = t := fun he => ht he.symm
      have hb : (t == b.type) = false := by simpa using ht
      rw [List.find?_cons_of_neg (by simp [hne])]
      simp only [hb]
      exact ih

/-- The base of each type that names one. -/
def Table.boundBases (table : Table) : List (TypePath × Option TypePath) :=
  table.bases.map fun b => (b.type, table.boundType b.name)

/-- The model that the table alone determines. -/
def Table.bound (table : Table) : Model :=
  ⟨table, table.boundBases, table.attributes.map
    (table.boundAttribute (isAttributeClass table table.boundBases))⟩

/-- All names in a table can be read, and their scopes are coherent. -/
structure Bindable (table : Table) (registered : Scope → Prop) : Prop extends
    Coherent table registered where
  bases : ∀ b ∈ table.bases,
    registered b.name.scope ∧ b.name.site.tree.Reads b.name.site.node
  attributes : ∀ f ∈ table.fields, ∀ r ∈ f.attributes,
    registered r.scope ∧ r.site.tree.Reads r.site.node

/-- **Binding the names of a table comes to the model that the table determines.** -/
theorem bindTable_eq {table : Table} {registered : Scope → Prop}
    (h : Bindable table registered) :
    (bindTable table).fault = none ∧ (bindTable table).model = table.bound := by
  have hbases : ∀ b ∈ table.bases, Gives (Kept table registered)
      (bindType table b.name) (.ok (table.boundType b.name)) :=
    fun b hb => bindType_gives h.toCoherent (h.bases b hb).1 (h.bases b hb).2
  obtain ⟨mid, hmid, hkept⟩ := bindEach_gives hbases Kept.none
  have hzip : (table.bases.map BaseReference.type).zip
      (table.bases.map fun b => table.boundType b.name) = table.boundBases := by
    rw [List.zip_map', Table.boundBases]
  have hattributes : ∀ r ∈ table.attributes, Gives (Kept table registered)
      (bindAttribute table (isAttributeClass table table.boundBases) r)
      (.ok (table.boundAttribute (isAttributeClass table table.boundBases) r)) := by
    intro r hr
    obtain ⟨f, hf, hrf⟩ := List.mem_flatMap.mp hr
    have hat := h.attributes f hf r hrf
    exact bindAttribute_gives h.toCoherent _ hat.1 hat.2
  obtain ⟨last, hlast, _⟩ := bindEach_gives hattributes hkept
  simp only [bindTable, hmid, hzip, hlast, Table.bound, and_self]

end Symbols

end PrintGen
