import PrintGen.Proofs.NodeTypes
import PrintGen.Proofs.Scopes

/-!
# What a tree adds to the table

Declaring a tree comes to a list of records. Every question to a table is answered by what was
known before and by the records, so the lists of records are all that is needed to compare tables.
Which records a tree makes depends on the table in two ways only: through the marks that the tree
has already, and through the kinds of types that were declared before.
-/

namespace PrintGen.Symbols

open Syntax

/-- A declaration of a type, with all that is recorded of it. -/
structure Declaration where
  tree : SourceTree
  node : Node
  type : TypeKind
  scope : Scope
  path : TypePath
  parameters : List String

namespace Declaration

def kind (d : Declaration) : TypeKind :=
  d.node.typeKind?.getD d.type

def site (d : Declaration) : Site :=
  ⟨d.tree, d.node⟩

/-- The base that the declaration names. -/
def base? (d : Declaration) : Option BaseReference :=
  d.node.baseName?.map fun name => ⟨d.path, ⟨⟨d.tree, name⟩, d.scope, d.path.outer?⟩⟩

theorem base?_type {d : Declaration} {b : BaseReference} (h : d.base? = some b) :
    b.type = d.path := by
  obtain ⟨name, _, rfl⟩ := Option.map_eq_some_iff.mp h
  rfl

/-- What is known of a type with one more declaration. -/
def joined (known : Option TypeEntry) (d : Declaration) : Option TypeEntry :=
  some (known.elim ⟨d.path, d.kind, d.parameters, [d.site]⟩ fun e =>
    { e with declarations := e.declarations ++ [d.site] })

end Declaration

/-- One record. -/
inductive Event where
  | level (mark : Mark)
  | home (n : Namespace)
  | directive (u : Using)
  | declaration (d : Declaration)
  | storage (fields : List FieldEntry)

namespace Event

def mark? : Event → Option Mark
  | level mark => some mark
  | _ => none

def home? : Event → Option Namespace
  | home n => some n
  | _ => none

def using? : Event → Option Using
  | directive u => some u
  | _ => none

def declaration? : Event → Option Declaration
  | declaration d => some d
  | _ => none

theorem eq_declaration {e : Event} {d : Declaration} (h : e.declaration? = some d) :
    e = .declaration d := by
  cases e with
  | declaration d' => rw [Option.some.inj h]
  | _ => cases h

def fields : Event → List FieldEntry
  | storage fields => fields
  | _ => []

/-- Whether a record can come from a tree. -/
def From (tree : SourceTree) : Event → Prop
  | level mark => mark.tree = tree.id
  | directive u => u.mark.tree = tree.id ∧ ∀ mark, u.frame = some mark → mark.tree = tree.id
  | declaration d => d.tree = tree
  | _ => True

end Event

theorem Event.From.mark {tree : SourceTree} {e : Event} (h : e.From tree) {mark : Mark}
    (hm : e.mark? = some mark) : mark.tree = tree.id := by
  cases e with
  | level m => exact Option.some.inj hm ▸ h
  | _ => cases hm

theorem Event.From.using {tree : SourceTree} {e : Event} (h : e.From tree) {u : Using}
    (hu : e.using? = some u) :
    u.mark.tree = tree.id ∧ ∀ mark, u.frame = some mark → mark.tree = tree.id := by
  cases e with
  | directive v => exact Option.some.inj hu ▸ h
  | _ => cases hu

theorem Event.From.declaration {tree : SourceTree} {e : Event} (h : e.From tree)
    {d : Declaration} (hd : e.declaration? = some d) : d.tree = tree := by
  cases e with
  | declaration d' => exact Option.some.inj hd ▸ h
  | _ => cases hd

def declarationsIn (es : List Event) : List Declaration :=
  es.filterMap Event.declaration?

/-- The declarations of a type. -/
def declarationsOf (es : List Event) (t : TypePath) : List Declaration :=
  (declarationsIn es).filter fun d => d.path = t

/-- The declarations by nodes with a key. -/
def declarationsAt (es : List Event) (key : NodeKey) : List Declaration :=
  (declarationsIn es).filter fun d => d.site.key = key

theorem declarationsIn_append (es more : List Event) :
    declarationsIn (es ++ more) = declarationsIn es ++ declarationsIn more :=
  List.filterMap_append

theorem mem_declarationsOf {es : List Event} {t : TypePath} {d : Declaration} :
    d ∈ declarationsOf es t ↔ d ∈ declarationsIn es ∧ d.path = t := by
  simp [declarationsOf]

namespace Table

/-- The table with one more record. -/
def record (table : Table) : Event → Table
  | .level mark => { table with frames := table.frames ++ [mark] }
  | .home n => table.withNamespace n
  | .directive u => { table with usings := table.usings ++ [u] }
  | .declaration d => table.withType d.tree d.node d.type d.scope d.path d.parameters
  | .storage fields => table.withFields fields

/-- The table with more records. -/
def after (table : Table) (es : List Event) : Table :=
  es.foldl record table

theorem after_append (table : Table) (es more : List Event) :
    table.after (es ++ more) = (table.after es).after more :=
  List.foldl_append

/-- The sites of the declarations of a type. -/
def sitesOf (table : Table) (t : TypePath) : List Site :=
  ((table.entryOf? t).map TypeEntry.declarations).getD []

/-- The name that decides the base of a type. -/
def base? (table : Table) (t : TypePath) : Option BaseReference :=
  table.bases.find? fun b => b.type = t

/-! ### One record -/

section

variable (table : Table)

theorem record_frames (e : Event) : (table.record e).frames = table.frames ++ e.mark?.toList := by
  cases e <;> simp [record, Event.mark?, withFields]

theorem record_usings (e : Event) : (table.record e).usings = table.usings ++ e.using?.toList := by
  cases e <;> simp [record, Event.using?, withFields]

theorem record_fields (e : Event) : (table.record e).fields = table.fields ++ e.fields := by
  cases e <;> simp [record, Event.fields, withFields]

theorem record_hasNamespace (e : Event) (n : Namespace) :
    (table.record e).hasNamespace n = (table.hasNamespace n || decide (e.home? = some n)) := by
  cases e with
  | home m =>
    rw [record, withNamespace_has]
    simp [Event.home?, eq_comm]
  | declaration d => simp [record, Event.home?, hasNamespace]
  | _ => simp [record, Event.home?, hasNamespace, withFields]

/-- Only declarations are about types. -/
theorem record_other {e : Event} (h : e.declaration? = none) :
    (table.record e).types = table.types ∧ (table.record e).bases = table.bases ∧
      (table.record e).nodeTypes = table.nodeTypes := by
  cases e with
  | declaration d => cases h
  | _ => simp [record, withFields]

theorem record_types (d : Declaration) : (table.record (.declaration d)).types =
    (table.withDeclaration d.path d.kind d.parameters d.site).types := by
  rw [record, withType_eq]
  rfl

theorem record_kindOf? (d : Declaration) (t : TypePath) :
    (table.record (.declaration d)).kindOf? t =
      if d.path = t then some ((table.kindOf? t).getD d.kind) else table.kindOf? t := by
  rw [kindOf?_of_types (table.record_types d), withDeclaration_kindOf?]
  by_cases h : d.path = t
  · rw [if_pos h, if_pos h.symm, h]
  · rw [if_neg h, if_neg fun he => h he.symm]

theorem record_entryOf? (d : Declaration) (t : TypePath) :
    (table.record (.declaration d)).entryOf? t =
      if d.path = t then Declaration.joined (table.entryOf? t) d else table.entryOf? t := by
  have hentry : (table.record (.declaration d)).entryOf? t =
      (table.withDeclaration d.path d.kind d.parameters d.site).entryOf? t := by
    rw [entryOf?, record_types]
    rfl
  rw [hentry, withDeclaration_entryOf?]
  by_cases h : d.path = t
  · rw [if_pos h, if_pos h.symm, h, Declaration.joined]
    cases table.entryOf? t with
    | none => rw [← h]; rfl
    | some e => rfl
  · rw [if_neg h, if_neg fun he => h he.symm]

theorem record_sitesOf (d : Declaration) (t : TypePath) :
    (table.record (.declaration d)).sitesOf t =
      if d.path = t then table.sitesOf t ++ [d.site] else table.sitesOf t := by
  rw [sitesOf, record_entryOf?]
  by_cases h : d.path = t
  · rw [if_pos h, if_pos h, sitesOf]
    cases table.entryOf? t <;> rfl
  · rw [if_neg h, if_neg h, sitesOf]

/-- The first declaration that names a base decides. -/
theorem record_bases (d : Declaration) : (table.record (.declaration d)).bases = table.bases ++
    if (table.bases.any fun b => b.type = d.path) = true then [] else d.base?.toList := by
  have hbases : (table.record (.declaration d)).bases =
      (table.withBase d.path d.tree d.node.baseName? d.scope).bases := by
    rw [record, withType_eq]
  rw [hbases, Declaration.base?]
  cases d.node.baseName? with
  | none => simp [withBase]
  | some name =>
    simp only [withBase, Option.map_some]
    split
    · rw [List.append_nil]
    · rfl

theorem record_base? (d : Declaration) (t : TypePath) :
    (table.record (.declaration d)).base? t =
      if d.path = t then (table.base? t).or d.base? else table.base? t := by
  rw [base?, record_bases, List.find?_append, ← base?]
  by_cases ht : d.path = t
  · rw [if_pos ht]
    split
    · rename_i hany
      have hsome : (table.base? t).isSome = true := by
        rw [← ht, base?, List.find?_isSome]
        exact List.any_eq_true.mp hany
      rw [Option.or_of_isSome hsome, Option.or_of_isSome hsome]
    · cases hb : d.base? with
      | none => rfl
      | some b =>
        have hb' : b.type = t := (Declaration.base?_type hb).trans ht
        rw [Option.toList_some, List.find?_singleton, if_pos (by simpa using hb')]
  · rw [if_neg ht]
    have hnone : List.find? (fun b => decide (b.type = t)) (if (table.bases.any fun b =>
        b.type = d.path) = true then [] else d.base?.toList) = none := by
      rw [List.find?_eq_none]
      intro b hb
      split at hb
      · cases hb
      · rw [Declaration.base?_type (Option.mem_toList.mp hb)]
        simpa using ht
    rw [hnone, Option.or_none]

theorem record_typeOfNode? (d : Declaration) (key : NodeKey) :
    (table.record (.declaration d)).typeOfNode? key =
      if d.site.key = key then some d.path else table.typeOfNode? key := by
  rw [record, withType_typeOfNode?]
  change (if key = d.site.key then _ else _) = _
  by_cases h : d.site.key = key
  · rw [if_pos h, if_pos h.symm]
  · rw [if_neg h, if_neg fun he => h he.symm]

theorem record_paths (d : Declaration) : (table.record (.declaration d)).paths =
    if table.hasType d.path then table.paths else table.paths ++ [d.path] := by
  rw [← withDeclaration_paths table d.path d.kind d.parameters d.site, paths, record_types]
  rfl

end

/-! ### Many records -/

/-- What is listed in order grows by what each record adds. -/
theorem after_flatMap {α : Type} {listed : Table → List α} {new : Event → List α}
    (h : ∀ table e, listed (table.record e) = listed table ++ new e) (table : Table)
    (es : List Event) : listed (table.after es) = listed table ++ es.flatMap new := by
  induction es generalizing table with
  | nil => exact (List.append_nil _).symm
  | cons e rest ih =>
    have hrest : listed (table.after (e :: rest)) =
        listed (table.record e) ++ rest.flatMap new := ih (table.record e)
    rw [hrest, h, List.append_assoc, List.flatMap_cons]

/-- What is known of types changes with the declarations that matter to it. -/
theorem after_foldl {α : Type} (known : Table → α) (p : Declaration → Prop) [DecidablePred p]
    (learn : α → Declaration → α)
    (hother : ∀ table e, Event.declaration? e = none → known (table.record e) = known table)
    (h : ∀ table d, known (table.record (.declaration d)) =
      if p d then learn (known table) d else known table) (table : Table) (es : List Event) :
    known (table.after es) =
      ((declarationsIn es).filter fun d => p d).foldl learn (known table) := by
  induction es generalizing table with
  | nil => rfl
  | cons e rest ih =>
    have hrest : known (table.after (e :: rest)) =
        ((declarationsIn rest).filter fun d => p d).foldl learn (known (table.record e)) :=
      ih (table.record e)
    cases hd : e.declaration? with
    | none => rw [hrest, hother table e hd, declarationsIn, declarationsIn,
        List.filterMap_cons_none hd]
    | some d =>
      rw [declarationsIn, List.filterMap_cons_some hd, hrest, Event.eq_declaration hd, h]
      by_cases hp : p d
      · rw [if_pos hp, List.filter_cons_of_pos (by simpa using hp)]
        rfl
      · rw [if_neg hp, List.filter_cons_of_neg (by simpa using hp)]
        rfl

/-- What every declaration and every other record keeps holds after all of them. -/
theorem after_invariant {P : Table → Prop}
    (hother : ∀ table e, Event.declaration? e = none → P table → P (table.record e))
    (hdeclaration : ∀ table d, P table → P (table.record (.declaration d))) (table : Table)
    (es : List Event) (h : P table) : P (table.after es) := by
  induction es generalizing table with
  | nil => exact h
  | cons e rest ih =>
    refine ih (table.record e) ?_
    cases hd : e.declaration? with
    | none => exact hother table e hd h
    | some d =>
      rw [Event.eq_declaration hd]
      exact hdeclaration table d h

section

variable (table : Table) (es : List Event)

theorem after_frames : (table.after es).frames = table.frames ++ es.filterMap Event.mark? := by
  rw [List.filterMap_eq_flatMap_toList]
  exact after_flatMap record_frames table es

theorem after_usings : (table.after es).usings = table.usings ++ es.filterMap Event.using? := by
  rw [List.filterMap_eq_flatMap_toList]
  exact after_flatMap record_usings table es

theorem after_fields : (table.after es).fields = table.fields ++ es.flatMap Event.fields :=
  after_flatMap record_fields table es

theorem after_hasNamespace (n : Namespace) :
    (table.after es).hasNamespace n = true ↔
      table.hasNamespace n = true ∨ ∃ e ∈ es, e.home? = some n := by
  induction es generalizing table with
  | nil => simp [after]
  | cons e rest ih =>
    have hrest := ih (table.record e)
    rw [record_hasNamespace, Bool.or_eq_true, decide_eq_true_eq] at hrest
    simp only [List.exists_mem_cons_iff]
    exact hrest.trans or_assoc

theorem after_entryOf? (t : TypePath) : (table.after es).entryOf? t =
    (declarationsOf es t).foldl Declaration.joined (table.entryOf? t) := by
  have hother : ∀ (table : Table) e, Event.declaration? e = none →
      (table.record e).entryOf? t = table.entryOf? t := by
    intro table e he
    rw [entryOf?, (table.record_other he).1]
    rfl
  exact after_foldl (fun table => table.entryOf? t) (fun d => d.path = t) _ hother
    (fun table d => table.record_entryOf? d t) table es

/-- A type has the kind of its first declaration. -/
theorem after_kindOf? (t : TypePath) : (table.after es).kindOf? t =
    (table.kindOf? t).or ((declarationsOf es t).head?.map Declaration.kind) := by
  have hfold : ∀ (ds : List Declaration) (kind : Option TypeKind),
      ds.foldl (fun kind d => some (kind.getD d.kind)) kind =
        kind.or (ds.head?.map Declaration.kind) := by
    intro ds
    induction ds with
    | nil => exact fun kind => (Option.or_none).symm
    | cons d rest ih =>
      intro kind
      rw [List.foldl_cons, ih]
      cases kind <;> rfl
  rw [declarationsOf, ← hfold]
  exact after_foldl (fun table => table.kindOf? t) (fun d => d.path = t) _
    (fun table e he => kindOf?_of_types (table.record_other he).1 t)
    (fun table d => table.record_kindOf? d t) table es

theorem after_hasType (t : TypePath) : (table.after es).hasType t = true ↔
    table.hasType t = true ∨ t ∈ (declarationsIn es).map Declaration.path := by
  have hdeclared : t ∈ (declarationsIn es).map Declaration.path ↔ declarationsOf es t ≠ [] := by
    rw [List.mem_map, Ne, List.eq_nil_iff_forall_not_mem, not_forall_not]
    exact exists_congr fun d => mem_declarationsOf.symm
  rw [hasType_iff, hasType_iff, after_kindOf?, hdeclared]
  cases table.kindOf? t with
  | some kind => simp
  | none => cases declarationsOf es t <;> simp

theorem after_sitesOf (t : TypePath) : (table.after es).sitesOf t =
    table.sitesOf t ++ (declarationsOf es t).map Declaration.site := by
  have hfold : ∀ (ds : List Declaration) (sites : List Site),
      ds.foldl (fun sites d => sites ++ [d.site]) sites =
        sites ++ ds.map Declaration.site := by
    intro ds
    induction ds with
    | nil => exact fun sites => (List.append_nil sites).symm
    | cons d rest ih =>
      intro sites
      rw [List.foldl_cons, ih, List.append_assoc]
      rfl
  have hother : ∀ (table : Table) e, Event.declaration? e = none →
      (table.record e).sitesOf t = table.sitesOf t := by
    intro table e he
    rw [sitesOf, entryOf?, (table.record_other he).1]
    rfl
  rw [declarationsOf, ← hfold]
  exact after_foldl (fun table => table.sitesOf t) (fun d => d.path = t) _ hother
    (fun table d => table.record_sitesOf d t) table es

theorem after_base? (t : TypePath) : (table.after es).base? t =
    (table.base? t).or ((declarationsOf es t).findSome? Declaration.base?) := by
  have hfold : ∀ (ds : List Declaration) (base : Option BaseReference),
      ds.foldl (fun base d => base.or d.base?) base =
        base.or (ds.findSome? Declaration.base?) := by
    intro ds
    induction ds with
    | nil => exact fun base => (Option.or_none).symm
    | cons d rest ih =>
      intro base
      rw [List.foldl_cons, ih, Option.or_assoc, List.findSome?_cons]
      cases d.base? <;> rfl
  have hother : ∀ (table : Table) e, Event.declaration? e = none →
      (table.record e).base? t = table.base? t := by
    intro table e he
    rw [base?, (table.record_other he).2.1]
    rfl
  rw [declarationsOf, ← hfold]
  exact after_foldl (fun table => table.base? t) (fun d => d.path = t) _ hother
    (fun table d => table.record_base? d t) table es

/-- A node stands for the type that it declared last. -/
theorem after_typeOfNode? (key : NodeKey) : (table.after es).typeOfNode? key =
    ((declarationsAt es key).getLast?.map Declaration.path).or (table.typeOfNode? key) := by
  have hfold : ∀ (ds : List Declaration) (type : Option TypePath),
      ds.foldl (fun _ d => some d.path) type =
        (ds.getLast?.map Declaration.path).or type := by
    intro ds
    induction ds with
    | nil => exact fun type => rfl
    | cons d rest ih =>
      intro type
      rw [List.foldl_cons, ih, List.getLast?_cons]
      cases rest.getLast? <;> rfl
  rw [declarationsAt, ← hfold]
  exact after_foldl (fun table => table.typeOfNode? key) (fun d => d.site.key = key) _
    (fun table e he => typeOfNode?_of_nodeTypes (table.record_other he).2.2 key)
    (fun table d => table.record_typeOfNode? d key) table es

/-- The same records add the same bases where the same bases are known. -/
theorem after_bases_congr {other : Table} (h : table.bases = other.bases) :
    (table.after es).bases = (other.after es).bases := by
  induction es generalizing table other with
  | nil => exact h
  | cons e rest ih =>
    refine ih (table.record e) ?_
    cases hd : e.declaration? with
    | none => rw [(table.record_other hd).2.1, (other.record_other hd).2.1, h]
    | some d =>
      rw [Event.eq_declaration hd, record_bases, record_bases, h]

/-- The same records add the same bases where the types that they declare have bases already in
both tables or in neither. -/
theorem after_bases_append {other : Table}
    (h : ∀ d ∈ declarationsIn es, (other.base? d.path).isSome = (table.base? d.path).isSome) :
    ∃ more, (table.after es).bases = table.bases ++ more ∧
      (other.after es).bases = other.bases ++ more := by
  induction es generalizing table other with
  | nil => exact ⟨[], (List.append_nil _).symm, (List.append_nil _).symm⟩
  | cons e rest ih =>
    cases hd : e.declaration? with
    | none =>
      have hsame := (table.record_other hd).2.1
      have hsame' := (other.record_other hd).2.1
      rw [declarationsIn, List.filterMap_cons_none hd] at h
      have hnext : ∀ d ∈ declarationsIn rest,
          ((other.record e).base? d.path).isSome = ((table.record e).base? d.path).isSome := by
        intro d hmem
        rw [base?, hsame', base?, hsame]
        exact h d hmem
      obtain ⟨more, hmore, hmore'⟩ := ih (table.record e) hnext
      exact ⟨more, hsame ▸ hmore, hsame' ▸ hmore'⟩
    | some d =>
      obtain rfl := Event.eq_declaration hd
      rw [declarationsIn, List.filterMap_cons_some hd, List.forall_mem_cons] at h
      have hnext : ∀ d' ∈ declarationsIn rest, ((other.record (.declaration d)).base? d'.path).isSome =
          ((table.record (.declaration d)).base? d'.path).isSome := by
        intro d' hmem
        rw [record_base?, record_base?]
        split
        · simp only [Option.isSome_or, h.2 d' hmem]
        · exact h.2 d' hmem
      have hknown : (other.bases.any fun b => b.type = d.path) =
          table.bases.any fun b => b.type = d.path := by
        rw [Bool.eq_iff_iff, List.any_eq_true, List.any_eq_true, ← List.find?_isSome,
          ← List.find?_isSome, ← Bool.eq_iff_iff]
        exact h.1
      obtain ⟨more, hmore, hmore'⟩ := ih (table.record (.declaration d)) hnext
      rw [record_bases, List.append_assoc] at hmore hmore'
      rw [hknown] at hmore'
      exact ⟨_, hmore, hmore'⟩

theorem after_bases_of_none (h : ∀ d ∈ declarationsIn es, d.base? = none) :
    (table.after es).bases = table.bases := by
  induction es generalizing table with
  | nil => rfl
  | cons e rest ih =>
    have hrest : ((table.record e).after rest).bases = (table.record e).bases := by
      refine ih (table.record e) fun d hd => h d ?_
      rw [declarationsIn, List.filterMap_cons]
      split
      · exact hd
      · exact List.mem_cons_of_mem _ hd
    refine hrest.trans ?_
    cases hd : e.declaration? with
    | none => exact (table.record_other hd).2.1
    | some d =>
      have hnone := h d (by rw [declarationsIn, List.filterMap_cons_some hd]; simp)
      rw [Event.eq_declaration hd, record_bases, hnone]
      simp

theorem after_bases_nodup (h : (table.bases.map BaseReference.type).Nodup) :
    ((table.after es).bases.map BaseReference.type).Nodup := by
  refine after_invariant (P := fun table => (table.bases.map BaseReference.type).Nodup)
    (fun table e hd h => ?_) (fun table d h => ?_) table es h
  · rw [(table.record_other hd).2.1]
    exact h
  · rw [record_bases]
    split
    · rw [List.append_nil]
      exact h
    · rename_i hnew
      cases hb : d.base? with
      | none => simpa using h
      | some b =>
        rw [Option.toList_some, List.map_append, List.map_singleton, Declaration.base?_type hb]
        refine h.append (List.nodup_singleton _) ?_
        rw [List.disjoint_singleton, List.mem_map]
        rintro ⟨b, hb, ht⟩
        exact hnew (List.any_eq_true.mpr ⟨b, hb, by simpa using ht⟩)

theorem after_paths_nodup (h : table.paths.Nodup) : (table.after es).paths.Nodup := by
  refine after_invariant (P := fun table => table.paths.Nodup)
    (fun table e hd h => ?_) (fun table d h => ?_) table es h
  · rw [paths, (table.record_other hd).1]
    exact h
  · rw [record_paths]
    split
    · exact h
    · rename_i hnew
      refine h.append (List.nodup_singleton _) ?_
      rw [List.disjoint_singleton, ← hasType_iff_mem]
      exact hnew

end

end Table

end PrintGen.Symbols
