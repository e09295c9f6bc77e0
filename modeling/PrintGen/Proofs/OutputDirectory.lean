import PrintGen.Proofs.GuardedFiles

/-!
# Making the output directory

A directory that is missing is made together with all that is missing on the way to it. This
succeeds exactly if the path leads to a directory afterwards. Without detours it does succeed
wherever something is missing at all, and what is made then lies on the way to the directory, so
that nothing new stands inside of it.
-/

namespace PrintGen.Disk

section

variable {d made : Disk} {p : DiskPath} {slashes : Nat}

theorem isDirectory_iff : d.isDirectory p = true ↔
    ∃ place, d.placeOf p = .ok place ∧ d.at? place = some .directory := by
  rw [isDirectory, decide_eq_true_iff, find?_eq_some]

/-- What is around a directory is a directory. -/
theorem isDirectory_of_inside {name : String} (h : d.isDirectory (p.inside name) = true) :
    d.isDirectory p = true := by
  obtain ⟨place, hplace, _⟩ := isDirectory_iff.mp h
  obtain ⟨directory, hdirectory, hat, _⟩ := placeOf_inside.mp hplace
  exact isDirectory_iff.mpr ⟨directory, hdirectory, hat⟩

theorem reverse_cons_inside (slashes : Nat) (name : String) (outer : List String) :
    (⟨slashes, (name :: outer).reverse⟩ : DiskPath) =
      DiskPath.inside ⟨slashes, outer.reverse⟩ name := by
  rw [List.reverse_cons]
  rfl

/-! ## One directory -/

/-- A directory is made where a path leads and nothing stands. -/
theorem makeDirectory_absent {place : List String} (hp : d.placeOf p = .ok place)
    (ha : d.at? place = none) : d.makeDirectory p = .ok (d.put place .directory) := by
  rw [makeDirectory, hp]
  simp only [ha]

/-- A directory that exists cannot be made again, but that is no obstacle. -/
theorem makeDirectory_existing (h : d.isDirectory p = true) :
    d.makeDirectory p = .error (.other (.fileExists p.text)) := by
  obtain ⟨place, hp, ha⟩ := isDirectory_iff.mp h
  rw [makeDirectory, hp]
  simp only [ha]

theorem makeDirectory_missing (h : d.placeOf p = .error .missing) :
    d.makeDirectory p = .error .missing := by
  rw [makeDirectory, h]

theorem isDirectory_of_missing (h : d.makeDirectory p = .error .missing) :
    d.isDirectory p = false := by
  by_contra hd
  rw [makeDirectory_existing (Bool.not_eq_false _ ▸ hd)] at h
  cases h

theorem makeLast_absent {place : List String} (hp : d.placeOf p = .ok place)
    (ha : d.at? place = none) : d.makeLast p = (d.put place .directory, none) := by
  rw [makeLast, makeDirectory_absent hp ha]

theorem makeLast_settled (h : (d.makeLast p).1.isDirectory p = true) :
    (d.makeLast p).2 = none := by
  rw [makeLast] at h ⊢
  cases hm : d.makeDirectory p with
  | ok made => rfl
  | error e =>
    rw [hm] at h
    cases e with
    | missing =>
      change d.isDirectory p = true at h
      rw [isDirectory_of_missing hm] at h
      cases h
    | other fault =>
      dsimp only at h ⊢
      by_cases hd : d.isDirectory p = true
      · rw [if_pos hd]
      · rw [if_neg hd] at h
        exact absurd h hd

/-! ## With all that is missing -/

theorem makeParents_existing {names : List String}
    (h : d.isDirectory ⟨slashes, names.reverse⟩ = true) :
    d.makeParents slashes names = (d, none) := by
  cases names with
  | nil => rfl
  | cons name outer =>
    rw [makeParents, makeDirectory_existing h]
    exact if_pos h

/-- A directory that is there needs nothing to be made. -/
theorem makeDirectories_existing (h : d.isDirectory p = true) :
    d.makeDirectories p = (d, none) := by
  rw [makeDirectories]
  exact makeParents_existing (by rw [List.reverse_reverse]; exact h)

theorem makeParents_settled {names : List String}
    (h : (d.makeParents slashes names).1.isDirectory ⟨slashes, names.reverse⟩ = true) :
    (d.makeParents slashes names).2 = none := by
  induction names with
  | nil => rfl
  | cons name outer ih =>
    rw [makeParents] at h ⊢
    cases hm : d.makeDirectory ⟨slashes, (name :: outer).reverse⟩ with
    | ok made => rfl
    | error e =>
      rw [hm] at h
      cases e with
      | other fault =>
        dsimp only at h ⊢
        by_cases hd : d.isDirectory ⟨slashes, (name :: outer).reverse⟩ = true
        · rw [if_pos hd]
        · rw [if_neg hd] at h
          exact absurd h hd
      | missing =>
        dsimp only at h ⊢
        generalize d.makeParents slashes outer = parents at h ih ⊢
        obtain ⟨made, fault⟩ := parents
        cases fault with
        | some fault =>
          -- the directory around would have been made without a fault
          rw [reverse_cons_inside] at h
          cases ih (isDirectory_of_inside h)
        | none => exact makeLast_settled h

/-- **Making directories succeeds if the path leads to a directory afterwards.** -/
theorem makeDirectories_settled (h : (d.makeDirectories p).1.isDirectory p = true) :
    d.makeDirectories p = ((d.makeDirectories p).1, none) := by
  refine Prod.ext rfl ?_
  rw [makeDirectories] at h ⊢
  exact makeParents_settled (by rw [List.reverse_reverse]; exact h)

/-! ## Without detours -/

/-- Where a path with one more name is missing, the path itself leads to nothing. -/
theorem lacks_of_inside {name : String} (h : d.placeOf (p.inside name) = .error .missing) :
    d.lacks p = true := by
  have hsplit : d.placeOf (p.inside name) = d.placeOf p >>= fun last => d.walk last [name] :=
    d.walk_append _ p.parts [name]
  rw [hsplit] at h
  rw [lacks]
  cases hp : d.placeOf p with
  | error o =>
    rw [hp] at h
    cases o with
    | missing => rfl
    | file => cases h
  | ok place =>
    rw [hp, except_ok_bind, walk] at h
    dsimp only
    cases ha : d.at? place with
    | none => rfl
    | some e =>
      rw [ha] at h
      cases e with
      | file content => cases h
      | directory => cases h

theorem lacks_ok {place : List String} (h : d.lacks p = true) (hp : d.placeOf p = .ok place) :
    d.at? place = none := by
  rw [lacks, hp] at h
  exact Option.isNone_iff_eq_none.mp h

/-- A directory was made at the end of a path, and all that is new lies on the way to it. -/
structure Reached (d made : Disk) (p : DiskPath) (place : List String) : Prop where
  leads : made.placeOf p = .ok place
  stands : made.at? place = some .directory
  onTheWay : ∀ q, made.at? q ≠ d.at? q → q <+: place

theorem Reached.of_isDirectory (h : d.isDirectory p = true) : ∃ place, Reached d d p place := by
  obtain ⟨place, hp, ha⟩ := isDirectory_iff.mp h
  exact ⟨place, hp, ha, fun q hq => absurd rfl hq⟩

theorem Reached.put {place : List String} (hp : d.placeOf p = .ok place)
    (ha : d.at? place = none) : Reached d (d.put place .directory) p place := by
  have hplace : place ≠ [] := ne_nil_of_at? (by rw [ha]; simp)
  refine ⟨(KeepsDirectories.put (by rw [ha]; simp) _).placeOf hp, at?_put_self d hplace _, ?_⟩
  intro q hq
  rw [at?_put d hplace] at hq
  by_cases he : q = place
  · rw [he]
  · rw [if_neg he] at hq
    exact absurd rfl hq

/-- Nothing stands where a path leads that was missing before, except for the directory itself. -/
theorem Reached.absent {place : List String} (h : Reached d made p place) (hg : Gains d made)
    (hr : d.Rooted) (hdirect : d.Direct p) (hlacks : d.lacks p = true) :
    d.at? place = none := by
  rcases hg.toExtends.placeOf_direct hr hdirect h.leads with hold | hnone
  · exact lacks_ok hlacks hold
  · exact hnone

/-- One more name after a directory that was missing. -/
theorem Reached.inside {place : List String} {name : String} (h : Reached d made p place)
    (hg : Gains d made) (hr : d.Rooted) (hdirect : d.Direct (p.inside name))
    (hlacks : d.lacks p = true) : ∃ last,
      made.makeLast (p.inside name) = (last, none) ∧
        Reached d last (p.inside name) (place ++ [name]) := by
  obtain ⟨hdirect, hdots⟩ := direct_inside.mp hdirect
  have hname : name ≠ ".." := by
    intro he
    rw [hdots he] at hlacks
    cases hlacks
  have hleads : made.placeOf (p.inside name) = .ok (place ++ [name]) :=
    placeOf_inside.mpr ⟨place, h.leads, h.stands, (if_neg hname).symm⟩
  -- nothing stood below a directory that was missing
  have hbelow : d.at? (place ++ [name]) = none :=
    hr.absent_below (h.absent hg hr hdirect hlacks) name
  have hnew : made.at? (place ++ [name]) = none := by
    by_contra hsome
    have hprefix := h.onTheWay (place ++ [name]) (by rw [hbelow]; exact hsome)
    have hlength := hprefix.length_le
    rw [List.length_append, List.length_singleton] at hlength
    omega
  refine ⟨_, makeLast_absent hleads hnew, ?_⟩
  obtain ⟨hleads', hstands, honly⟩ := Reached.put hleads hnew
  refine ⟨hleads', hstands, fun q hq => ?_⟩
  by_cases he : made.at? q = d.at? q
  · exact honly q (he ▸ hq)
  · exact (h.onTheWay q he).trans (List.prefix_append place [name])

theorem makeParents_direct (hr : d.Rooted) (hcurrent : d.at? d.current = some .directory)
    {names : List String} (hdirect : d.Direct ⟨slashes, names.reverse⟩)
    (h : d.isDirectory ⟨slashes, names.reverse⟩ = true ∨
      d.lacks ⟨slashes, names.reverse⟩ = true) :
    ∃ made place, d.makeParents slashes names = (made, none) ∧
      Reached d made ⟨slashes, names.reverse⟩ place := by
  induction names with
  | nil =>
    refine ⟨d, if 0 < slashes then [] else d.current, rfl, ?_, ?_, fun q hq => absurd rfl hq⟩
    · simp [Disk.placeOf, walk, DiskPath.isAbsolute]
    · split
      · rfl
      · exact hcurrent
  | cons name outer ih =>
    by_cases hd : d.isDirectory ⟨slashes, (name :: outer).reverse⟩ = true
    · obtain ⟨place, hreached⟩ := Reached.of_isDirectory hd
      exact ⟨d, place, makeParents_existing hd, hreached⟩
    · have hlacks := h.resolve_left hd
      rw [makeParents]
      cases hp : d.placeOf ⟨slashes, (name :: outer).reverse⟩ with
      | ok place =>
        have hnone := lacks_ok hlacks hp
        rw [makeDirectory_absent hp hnone]
        exact ⟨_, place, rfl, .put hp hnone⟩
      | error o =>
        cases o with
        | file =>
          rw [lacks, hp] at hlacks
          cases hlacks
        | missing =>
          rw [makeDirectory_missing hp]
          rw [reverse_cons_inside] at hp hdirect
          have houter := lacks_of_inside hp
          obtain ⟨made, place, hmade, hreached⟩ :=
            ih (direct_inside.mp hdirect).1 (.inr houter)
          have hgains := makeParents_gains d slashes outer
          rw [hmade] at hgains
          obtain ⟨last, hlast, hinside⟩ := hreached.inside hgains hr hdirect houter
          rw [reverse_cons_inside, hmade]
          exact ⟨last, _, hlast, hinside⟩

/-- **A directory that is missing can be made**, if there is no detour on the way to it. -/
theorem makeDirectories_direct (hr : d.Rooted) (hcurrent : d.at? d.current = some .directory)
    (hdirect : d.Direct p) (h : d.isDirectory p = true ∨ d.lacks p = true) :
    ∃ place, Reached d (d.makeDirectories p).1 p place := by
  have hp : (⟨p.slashes, p.parts.reverse.reverse⟩ : DiskPath) = p := by rw [List.reverse_reverse]
  rw [← hp] at hdirect h
  obtain ⟨made, place, hmade, hreached⟩ := makeParents_direct hr hcurrent hdirect h
  rw [hp] at hreached
  rw [makeDirectories, hmade]
  exact ⟨place, hreached⟩

end

end PrintGen.Disk
