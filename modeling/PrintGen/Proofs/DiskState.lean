import PrintGen.Disk.Write
import PrintGen.Proofs.Names
import Mathlib.Data.List.Nodup
import Mathlib.Data.List.Perm.Subperm

/-!
# What stands on a disk

A disk is known by what stands at each place. Putting an entry changes one place, and a walk along
names depends on the directories that it passes and on nothing else. A temporary file is put at a
place at which nothing stands, so that removing it leaves the disk as it was. Making directories
adds entries and changes none.
-/

namespace PrintGen

theorem lookup_cons_ite {α β : Type} [DecidableEq α] [BEq α] [LawfulBEq α] (a b : α) (c : β)
    (rest : List (α × β)) :
    ((b, c) :: rest).lookup a = if a = b then some c else rest.lookup a := by
  rw [List.lookup_cons]
  by_cases h : a = b
  · simp [h]
  · simp [beq_false_of_ne h, h]

namespace Disk

section

variable (d : Disk)

/-! ## Single entries -/

theorem at?_of_ne {place : List String} (h : place ≠ []) :
    d.at? place = d.entries.lookup place := by
  rw [at?, if_neg (by simpa using h)]

theorem ne_nil_of_at? {d : Disk} {place : List String} (h : d.at? place ≠ some .directory) :
    place ≠ [] := by
  rintro rfl
  exact h rfl

theorem lookup_putEntry (place q : List String) (e : DiskEntry)
    (entries : List (List String × DiskEntry)) :
    (putEntry place e entries).lookup q = if q = place then some e else entries.lookup q := by
  induction entries with
  | nil => exact lookup_cons_ite q place e []
  | cons entry rest ih =>
    obtain ⟨p, old⟩ := entry
    rw [putEntry]
    by_cases hp : p = place
    · rw [if_pos hp, lookup_cons_ite, lookup_cons_ite, hp]
      split <;> rfl
    · rw [if_neg hp, lookup_cons_ite, lookup_cons_ite, ih]
      by_cases hq : q = p
      · rw [if_pos hq, if_pos hq, if_neg fun he => hp (hq.symm.trans he)]
      · rw [if_neg hq, if_neg hq]

theorem at?_put {place : List String} (h : place ≠ []) (e : DiskEntry) (q : List String) :
    (d.put place e).at? q = if q = place then some e else d.at? q := by
  by_cases hq : q = []
  · rw [hq, if_neg h.symm]
    rfl
  · rw [at?_of_ne _ hq, at?_of_ne _ hq]
    exact lookup_putEntry place q e d.entries

theorem at?_put_self {place : List String} (h : place ≠ []) (e : DiskEntry) :
    (d.put place e).at? place = some e := by
  rw [at?_put d h, if_pos rfl]

theorem absent_iff {place : List String} : d.at? place = none ↔
    place ≠ [] ∧ ∀ entry ∈ d.entries, entry.1 ≠ place := by
  by_cases h : place = []
  · simp [h, at?]
  · rw [at?_of_ne d h, List.lookup_eq_none_iff]
    simp only [ne_eq, h, not_false_eq_true, true_and, bne_iff_ne]
    exact forall₂_congr fun entry _ => ne_comm

theorem put_put (place : List String) (e e' : DiskEntry) :
    (d.put place e).put place e' = d.put place e' := by
  have hentries : ∀ entries, putEntry place e' (putEntry place e entries) =
      putEntry place e' entries := by
    intro entries
    induction entries with
    | nil => simp [putEntry]
    | cons entry rest ih =>
      obtain ⟨p, old⟩ := entry
      by_cases hp : p = place <;> simp [putEntry, hp, ih]
  rw [put, put, put, hentries]

/-- An entry that is put where nothing stands and taken away again leaves no trace. -/
theorem erase_put {place : List String} (h : d.at? place = none) (e : DiskEntry) :
    (d.put place e).erase place = d := by
  have hentries : ∀ entries : List (List String × DiskEntry), (∀ entry ∈ entries, entry.1 ≠ place) →
      (putEntry place e entries).filter (fun entry => entry.1 ≠ place) = entries := by
    intro entries hall
    induction entries with
    | nil => simp [putEntry]
    | cons entry rest ih =>
      obtain ⟨hne, hrest⟩ := List.forall_mem_cons.mp hall
      obtain ⟨p, old⟩ := entry
      rw [putEntry, if_neg hne, List.filter_cons_of_pos (by simpa using hne), ih hrest]
  rw [erase, put, hentries _ ((absent_iff d).mp h).2]

/-! ## Walks -/

theorem walk_append (place : List String) (names more : List String) :
    d.walk place (names ++ more) = d.walk place names >>= fun last => d.walk last more := by
  induction names generalizing place with
  | nil => rfl
  | cons name rest ih =>
    rw [List.cons_append, walk, walk]
    cases h : d.at? place with
    | none => rfl
    | some e =>
      cases e with
      | file content => rfl
      | directory => exact ih _

end

/-- A walk goes on only from a directory. -/
theorem walk_cons_ok {d : Disk} {place last : List String} {name : String} {rest : List String} :
    d.walk place (name :: rest) = .ok last ↔ d.at? place = some .directory ∧
      d.walk (if name = ".." then place.dropLast else place ++ [name]) rest = .ok last := by
  rw [walk]
  cases h : d.at? place with
  | none => simp
  | some e => cases e <;> simp

/-- The directories of one disk are directories of another. -/
structure KeepsDirectories (d d' : Disk) : Prop where
  current : d'.current = d.current
  directories : ∀ q, d.at? q = some .directory → d'.at? q = some .directory

/-- Everything on one disk is also on another. -/
structure Extends (d d' : Disk) : Prop where
  current : d'.current = d.current
  entries : ∀ q e, d.at? q = some e → d'.at? q = some e

theorem Extends.refl (d : Disk) : Extends d d :=
  ⟨rfl, fun _ _ h => h⟩

theorem Extends.trans {d d' d'' : Disk} (h : Extends d d') (h' : Extends d' d'') :
    Extends d d'' :=
  ⟨h'.current.trans h.current, fun q e hq => h'.entries q e (h.entries q e hq)⟩

theorem Extends.keeps {d d' : Disk} (h : Extends d d') : KeepsDirectories d d' :=
  ⟨h.current, fun q => h.entries q _⟩

/-- Putting an entry where nothing stands keeps everything. -/
theorem Extends.put {d d' : Disk} (h : Extends d d') {place : List String}
    (hn : d.at? place = none) (hd : d'.at? place ≠ some .directory) (e : DiskEntry) :
    Extends d (d'.put place e) := by
  refine ⟨h.current, fun q e' hq => ?_⟩
  rw [at?_put d' (ne_nil_of_at? hd), if_neg, h.entries q e' hq]
  rintro rfl
  rw [hn] at hq
  cases hq

theorem KeepsDirectories.walk {d d' : Disk} (h : KeepsDirectories d d') {place last : List String}
    {names : List String} (hw : d.walk place names = .ok last) :
    d'.walk place names = .ok last := by
  induction names generalizing place with
  | nil => exact hw
  | cons name rest ih =>
    obtain ⟨hp, hr⟩ := walk_cons_ok.mp hw
    exact walk_cons_ok.mpr ⟨h.directories place hp, ih hr⟩

theorem KeepsDirectories.put {d : Disk} {place : List String}
    (h : d.at? place ≠ some .directory) (e : DiskEntry) : KeepsDirectories d (d.put place e) := by
  refine ⟨rfl, fun q hq => ?_⟩
  rw [at?_put d (ne_nil_of_at? h), if_neg, hq]
  rintro rfl
  exact h hq

/-- A path that leads somewhere leads there as long as the directories are kept. -/
theorem KeepsDirectories.placeOf {d d' : Disk} (h : KeepsDirectories d d') {p : DiskPath}
    {place : List String} (hp : d.placeOf p = .ok place) : d'.placeOf p = .ok place := by
  rw [Disk.placeOf, h.current]
  exact h.walk hp

end Disk

/-- The path of something in a directory. -/
def DiskPath.inside (p : DiskPath) (name : String) : DiskPath :=
  ⟨p.slashes, p.parts ++ [name]⟩

namespace Disk

/-- Where a path with one more name leads. -/
theorem placeOf_inside {d : Disk} {p : DiskPath} {name : String} {place : List String} :
    d.placeOf (p.inside name) = .ok place ↔
      ∃ directory, d.placeOf p = .ok directory ∧ d.at? directory = some .directory ∧
        place = if name = ".." then directory.dropLast else directory ++ [name] := by
  have hsplit : d.placeOf (p.inside name) = d.placeOf p >>= fun last => d.walk last [name] :=
    d.walk_append _ p.parts [name]
  have hlast : ∀ last, d.walk last [name] = .ok place ↔ d.at? last = some .directory ∧
      place = if name = ".." then last.dropLast else last ++ [name] := by
    intro last
    rw [walk_cons_ok, walk, Except.ok.injEq, eq_comm (a := place)]
  rw [hsplit]
  cases d.placeOf p with
  | error o => simp [bind, Except.bind]
  | ok directory => simp [bind, Except.bind, hlast]

/-! ## What a path finds -/

theorem find?_eq_some {d : Disk} {p : DiskPath} {e : DiskEntry} :
    d.find? p = some e ↔ ∃ place, d.placeOf p = .ok place ∧ d.at? place = some e := by
  rw [find?]
  cases d.placeOf p with
  | error o => simp
  | ok place => simp

theorem Extends.find? {d d' : Disk} (h : Extends d d') {p : DiskPath} {e : DiskEntry}
    (hp : d.find? p = some e) : d'.find? p = some e := by
  obtain ⟨place, hplace, he⟩ := find?_eq_some.mp hp
  exact find?_eq_some.mpr ⟨place, h.keeps.placeOf hplace, h.entries place e he⟩

theorem find?_put_self {d : Disk} {p : DiskPath} {place : List String}
    (hp : d.placeOf p = .ok place) (hfree : d.at? place ≠ some .directory) (e : DiskEntry) :
    (d.put place e).find? p = some e :=
  find?_eq_some.mpr ⟨place, (KeepsDirectories.put hfree e).placeOf hp,
    at?_put_self d (ne_nil_of_at? hfree) e⟩

/-- A text is read with all its line ends as line feeds. -/
theorem readText_ok {d : Disk} {p : DiskPath} {text : String} : d.readText p = .ok text ↔
    ∃ s, d.find? p = some (.file (.text s)) ∧
      text = String.ofList (Text.unifyLineEnds s.toList) := by
  rw [readText, find?]
  cases d.placeOf p with
  | error o => cases o <;> simp
  | ok place =>
    dsimp only
    cases d.at? place with
    | none => simp
    | some e =>
      cases e with
      | directory => simp
      | file content => cases content <;> simp [eq_comm (a := text)]

/-! ## Temporary files -/

theorem temporaryName_inj {target : String} {n m : Nat}
    (h : temporaryName target n = temporaryName target m) : n = m := by
  have hlist := congrArg String.toList h
  simp only [temporaryName, String.toList_append, List.append_assoc, List.append_cancel_left_eq,
    List.append_cancel_right_eq] at hlist
  exact digits_inj (String.toList_inj.mp hlist)

/-- **Nothing stands at the place of a temporary file.** More names are tried than there are
entries, so one of them is free. -/
theorem temporaryPlace_absent (d : Disk) (directory : List String) (target : String) :
    d.at? (d.temporaryPlace directory target) = none := by
  rw [temporaryPlace]
  cases hfree : (List.range (d.entries.length + 1)).find? fun n =>
      (d.at? (directory ++ [temporaryName target n])).isNone with
  | some n =>
    have hn := List.find?_some hfree
    exact Option.isNone_iff_eq_none.mp hn
  | none =>
    rw [List.find?_eq_none] at hfree
    let places := (List.range (d.entries.length + 1)).map fun n =>
      directory ++ [temporaryName target n]
    have hnodup : places.Nodup := by
      refine List.nodup_range.map fun n m he => ?_
      exact temporaryName_inj (List.singleton_inj.mp (List.append_cancel_left he))
    have hsubset : places ⊆ d.entries.map Prod.fst := by
      intro place hp
      obtain ⟨n, hn, rfl⟩ := List.mem_map.mp hp
      by_contra habsent
      refine hfree n hn (Option.isNone_iff_eq_none.mpr ((absent_iff d).mpr ⟨by simp, ?_⟩))
      exact fun entry he hplace => habsent (hplace ▸ List.mem_map_of_mem he)
    have hlength := (List.subperm_of_subset hnodup hsubset).length_le
    simp only [places, List.length_map, List.length_range] at hlength
    omega

/-! ## Making directories -/

/-- One disk has what another has, and besides it at most directories at places where nothing
was. -/
structure Gains (d d' : Disk) : Prop where
  current : d'.current = d.current
  places : ∀ q, d'.at? q = d.at? q ∨ d.at? q = none ∧ d'.at? q = some .directory

section

variable {d d' d'' : Disk}

theorem Gains.refl (d : Disk) : Gains d d :=
  ⟨rfl, fun _ => .inl rfl⟩

theorem Gains.trans (h : Gains d d') (h' : Gains d' d'') : Gains d d'' := by
  refine ⟨h'.current.trans h.current, fun q => ?_⟩
  rcases h'.places q with hsame | ⟨hnone, hnew⟩
  · rw [hsame]
    exact h.places q
  · rcases h.places q with hq | ⟨_, hq⟩
    · exact .inr ⟨hq ▸ hnone, hnew⟩
    · rw [hnone] at hq
      cases hq

theorem Gains.put {place : List String} (h : d.at? place = none) :
    Gains d (d.put place .directory) := by
  refine ⟨rfl, fun q => ?_⟩
  have hplace : place ≠ [] := ne_nil_of_at? (by rw [h]; simp)
  rw [at?_put d hplace]
  by_cases hq : q = place
  · rw [if_pos hq, hq]
    exact .inr ⟨h, rfl⟩
  · rw [if_neg hq]
    exact .inl rfl

theorem Gains.toExtends (h : Gains d d') : Extends d d' := by
  refine ⟨h.current, fun q e hq => ?_⟩
  rcases h.places q with hsame | ⟨hnone, _⟩
  · rw [hsame, hq]
  · rw [hnone] at hq
    cases hq

theorem Gains.file_iff (h : Gains d d') {q : List String} {content : Content} :
    d'.at? q = some (.file content) ↔ d.at? q = some (.file content) := by
  rcases h.places q with hsame | ⟨hnone, hnew⟩
  · rw [hsame]
  · rw [hnone, hnew]
    simp

end

theorem makeDirectory_ok {d made : Disk} {p : DiskPath} (h : d.makeDirectory p = .ok made) :
    ∃ place, d.placeOf p = .ok place ∧ d.at? place = none ∧ made = d.put place .directory := by
  rw [makeDirectory] at h
  cases hp : d.placeOf p with
  | error o =>
    rw [hp] at h
    cases o <;> cases h
  | ok place =>
    rw [hp] at h
    cases ha : d.at? place with
    | some e =>
      simp only [ha] at h
      cases h
    | none =>
      simp only [ha] at h
      cases h
      exact ⟨place, rfl, ha, rfl⟩

theorem makeDirectory_gains {d made : Disk} {p : DiskPath} (h : d.makeDirectory p = .ok made) :
    Gains d made := by
  obtain ⟨place, _, ha, rfl⟩ := makeDirectory_ok h
  exact .put ha

theorem makeLast_gains (d : Disk) (p : DiskPath) : Gains d (d.makeLast p).1 := by
  rw [makeLast]
  cases hm : d.makeDirectory p with
  | ok made => exact makeDirectory_gains hm
  | error e =>
    cases e with
    | missing => exact .refl d
    | other fault =>
      dsimp only
      split <;> exact .refl d

theorem makeParents_gains (d : Disk) (slashes : Nat) (names : List String) :
    Gains d (d.makeParents slashes names).1 := by
  induction names with
  | nil => exact .refl d
  | cons name outer ih =>
    rw [makeParents]
    cases hm : d.makeDirectory ⟨slashes, (name :: outer).reverse⟩ with
    | ok made => exact makeDirectory_gains hm
    | error e =>
      cases e with
      | other fault =>
        dsimp only
        split <;> exact .refl d
      | missing =>
        generalize d.makeParents slashes outer = parents at ih
        obtain ⟨made, fault⟩ := parents
        cases fault with
        | some fault => exact ih
        | none => exact ih.trans (makeLast_gains made _)

/-- **Making directories changes nothing that is there and adds nothing else.** -/
theorem makeDirectories_gains (d : Disk) (p : DiskPath) : Gains d (d.makeDirectories p).1 :=
  makeParents_gains d p.slashes p.parts.reverse

theorem makeDirectories_extends (d : Disk) (p : DiskPath) : Extends d (d.makeDirectories p).1 :=
  (makeDirectories_gains d p).toExtends

end Disk

end PrintGen
