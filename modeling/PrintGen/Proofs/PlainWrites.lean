import PrintGen.Proofs.Agreement
import PrintGen.Proofs.DiskState

/-!
# Writes without temporary files

A text goes to its target by way of a temporary file. However the write ends, the temporary file
leaves no trace: the write is the same as one that makes the directories, checks the text and puts
it at the target. So a write that fails leaves the disk with the new directories and nothing else,
and one that succeeds changes one place besides.
-/

namespace PrintGen

open Text (CodeText)

section

variable {ε σ α β : Type}

theorem run_bind_of_ok {x : EStateM ε σ α} {a : α} {s t : σ} (h : x s = .ok a t)
    (f : α → EStateM ε σ β) : (x >>= f) s = f a t := by
  simp only [bind, EStateM.bind, h]

theorem run_bind_of_error {x : EStateM ε σ α} {e : ε} {s t : σ} (h : x s = .error e t)
    (f : α → EStateM ε σ β) : (x >>= f) s = .error e t := by
  simp only [bind, EStateM.bind, h]

theorem run_tryCatch_of_ok {x : EStateM ε σ α} {a : α} {s t : σ} (h : x s = .ok a t)
    (handle : ε → EStateM ε σ α) : (tryCatch x handle : EStateM ε σ α) s = .ok a t := by
  show EStateM.tryCatch x handle s = _
  delta EStateM.tryCatch
  simp only [h]

theorem run_tryCatch_of_error {x : EStateM ε σ α} {e : ε} {s t : σ} (h : x s = .error e t)
    (handle : ε → EStateM ε σ α) : (tryCatch x handle : EStateM ε σ α) s = handle e t := by
  show EStateM.tryCatch x handle s = _
  delta EStateM.tryCatch
  simp only [h]
  rfl

end

namespace Disk

/-- Puts a text at a target; a directory cannot be replaced. -/
def store (d : Disk) (target : DiskPath) (s : String) : Disk × Option Fault :=
  match d.placeOf target with
  | .error .missing => (d, some (.noSuchFile target.text))
  | .error .file => (d, some (.notDirectory target.text))
  | .ok place =>
    if d.at? place = some .directory then (d, some (.isDirectory target.text))
    else (d.put place (.file (.text s)), none)

section

variable {d : Disk} {target : DiskPath}

/-- A path is followed to its parent first. -/
theorem placeOf_parent (d : Disk) (target : DiskPath) : d.placeOf target =
    d.placeOf target.parent >>= fun last => d.walk last target.parts.getLast?.toList := by
  have hparts : target.parent.parts ++ target.parts.getLast?.toList = target.parts := by
    rw [DiskPath.parent]
    cases h : target.parts.getLast? with
    | none => simp [List.getLast?_eq_none_iff.mp h]
    | some name => exact List.dropLast_append_getLast? name h
  have hwalk := d.walk_append (if target.isAbsolute then [] else d.current) target.parent.parts
    target.parts.getLast?.toList
  rw [hparts] at hwalk
  exact hwalk

variable {directory : List String} {name : String}

/-- A new entry beside a target is not on the way to it. -/
theorem placeOf_put (hp : d.placeOf target.parent = .ok directory)
    (ha : d.at? (directory ++ [name]) = none) (e : DiskEntry) :
    (d.put (directory ++ [name]) e).placeOf target = d.placeOf target := by
  have hplace : directory ++ [name] ≠ [] := by simp
  have hkeeps : Extends d (d.put (directory ++ [name]) e) :=
    (Extends.refl d).put ha (by rw [ha]; simp) e
  have hdirectory : (d.put (directory ++ [name]) e).at? directory = d.at? directory := by
    rw [at?_put d hplace, if_neg (by simp)]
  rw [placeOf_parent, placeOf_parent d, hkeeps.keeps.placeOf hp, hp, except_ok_bind, except_ok_bind]
  cases target.parts.getLast? with
  | none => rfl
  | some last =>
    simp only [Option.toList_some, walk, hdirectory]

/-- Putting a temporary file in place of a target is putting its text there. -/
theorem replace_eq_store (hp : d.placeOf target.parent = .ok directory)
    (ha : d.at? (directory ++ [name]) = none) (s : String) :
    (d.put (directory ++ [name]) (.file (.text s))).replace (directory ++ [name]) target (.text s) =
      d.store target s := by
  have hat : ∀ place, (d.put (directory ++ [name]) (.file (.text s))).at? place = some .directory ↔
      d.at? place = some .directory := by
    intro place
    rw [at?_put d (by simp)]
    by_cases h : place = directory ++ [name]
    · simp [h, ha]
    · rw [if_neg h]
  rw [replace, store, placeOf_put hp ha, erase_put d ha]
  cases d.placeOf target with
  | error o => cases o <;> rfl
  | ok place => simp only [hat]

theorem store_ok {s : String} {after : Disk} : d.store target s = (after, none) ↔
    ∃ place, d.placeOf target = .ok place ∧ d.at? place ≠ some .directory ∧
      after = d.put place (.file (.text s)) := by
  rw [store]
  cases d.placeOf target with
  | error o => cases o <;> simp
  | ok place =>
    by_cases h : d.at? place = some .directory
    · simp [h]
    · simp [h, eq_comm (a := after)]

/-- A text that cannot be put at a target leaves the disk as it was. -/
theorem store_fault {s : String} {after : Disk} {fault : Fault}
    (h : d.store target s = (after, some fault)) : after = d := by
  rw [store] at h
  cases hp : d.placeOf target with
  | error o =>
    rw [hp] at h
    cases o <;> exact (congrArg Prod.fst h).symm
  | ok place =>
    rw [hp] at h
    dsimp only at h
    split at h
    · exact (congrArg Prod.fst h).symm
    · cases h

end

end Disk

section

variable {target : DiskPath} {text : CodeText} {check : String → Traced Unit}

theorem Filing.run_change_ok {f : Disk → Disk × Option Fault} {w : Workspace} {d : Disk}
    (h : f w.disk = (d, none)) : Filing.change f w = .ok () { w with disk := d } := by
  rw [Filing.change, h]

theorem Filing.run_change_fault {f : Disk → Disk × Option Fault} {w : Workspace} {d : Disk}
    {fault : Fault} (h : f w.disk = (d, some fault)) :
    Filing.change f w = .error fault { w with disk := d } := by
  rw [Filing.change, h]

theorem Filing.run_change_congr {f g : Disk → Disk × Option Fault} {d d' : Disk} {t : Trace}
    (h : f d = g d') : Filing.change f ⟨d, t⟩ = Filing.change g ⟨d', t⟩ := by
  rw [Filing.change, Filing.change, h]

theorem Filing.run_ofTraced_ok {α : Type} {run : Traced α} {a : α} {t t' : Trace}
    (h : run t = .ok a t') (d : Disk) : Filing.ofTraced run ⟨d, t⟩ = .ok a ⟨d, t'⟩ := by
  rw [Filing.ofTraced, h]

theorem Filing.run_ofTraced_fault {α : Type} {run : Traced α} {fault : Fault} {t t' : Trace}
    (h : run t = .error fault t') (d : Disk) :
    Filing.ofTraced run ⟨d, t⟩ = .error fault ⟨d, t'⟩ := by
  rw [Filing.ofTraced, h]

/-! ## Filling a temporary file -/

section

variable (d : Disk) (temporary : List String) (e : DiskEntry) {s : String} {t t' : Trace}

theorem fill_unwritable (hs : text.string? = none) :
    fill temporary text check ⟨d.put temporary e, t⟩ =
      .error .unwritableText ⟨d.put temporary e, t⟩ := by
  rw [fill, hs]
  rfl

theorem fill_put (hs : text.string? = some s) :
    fill temporary text check ⟨d.put temporary e, t⟩ =
      (Filing.ofTraced (check s) >>= fun _ => pure s)
        ⟨d.put temporary (.file (.text s)), t⟩ := by
  rw [fill, hs]
  refine (run_bind_of_ok (Filing.run_change_ok rfl) _).trans ?_
  rw [Disk.put_put]

theorem fill_refused {fault : Fault} (hs : text.string? = some s)
    (hc : check s t = .error fault t') :
    fill temporary text check ⟨d.put temporary e, t⟩ =
      .error fault ⟨d.put temporary (.file (.text s)), t'⟩ := by
  rw [fill_put d temporary e hs, run_bind_of_error (Filing.run_ofTraced_fault hc _)]

theorem fill_ok (hs : text.string? = some s) (hc : check s t = .ok () t') :
    fill temporary text check ⟨d.put temporary e, t⟩ =
      .ok s ⟨d.put temporary (.file (.text s)), t'⟩ := by
  rw [fill_put d temporary e hs, run_bind_of_ok (Filing.run_ofTraced_ok hc _)]
  rfl

end

/-! ## One write -/

/-- Writes a text to a file: the directories on the way are made, the text is checked and put
there. -/
def writeDirect (target : DiskPath) (text : CodeText) (check : String → Traced Unit) :
    Filing Unit := do
  Filing.change fun d => d.makeDirectories target.parent
  let d := (← get).disk
  match d.placeOf target.parent with
  | .error _ => throw (.noSuchFile target.text)
  | .ok _ =>
    match text.string? with
    | none => throw .unwritableText
    | some s => do
      Filing.ofTraced (check s)
      Filing.change fun d => d.store target s

/-- **Temporary files leave no trace**, whether the write succeeds or fails. -/
theorem writeChecked_eq (target : DiskPath) (text : CodeText) (check : String → Traced Unit) :
    writeChecked target text check = writeDirect target text check := by
  funext w
  obtain ⟨d, trace⟩ := w
  rw [writeChecked, writeDirect]
  obtain ⟨made, fault, hmade⟩ : ∃ made fault, d.makeDirectories target.parent = (made, fault) :=
    ⟨_, _, rfl⟩
  cases fault with
  | some fault =>
    rw [run_bind_of_error (Filing.run_change_fault hmade),
      run_bind_of_error (Filing.run_change_fault hmade)]
  | none =>
    rw [run_bind_of_ok (Filing.run_change_ok hmade), run_bind_of_ok (Filing.run_change_ok hmade),
      run_get_bind, run_get_bind]
    dsimp only
    cases hp : made.placeOf target.parent with
    | error o => rfl
    | ok directory =>
      dsimp only
      have habsent := made.temporaryPlace_absent directory target.name
      obtain ⟨name, hname⟩ : ∃ name, made.temporaryPlace directory target.name =
        directory ++ [name] := ⟨_, rfl⟩
      rw [hname] at habsent ⊢
      rw [run_bind_of_ok (Filing.run_change_ok rfl)]
      -- the temporary file goes away again, whatever has been put into it
      have hremoved : ∀ e t, Filing.change (fun d => (d.erase (directory ++ [name]), none))
          ⟨made.put (directory ++ [name]) e, t⟩ = .ok () ⟨made, t⟩ := by
        intro e t
        rw [Filing.run_change_ok rfl, Disk.erase_put made habsent]
      cases hs : text.string? with
      | none =>
        rw [run_bind_of_error ((run_tryCatch_of_error (fill_unwritable made _ _ hs) _).trans
          (run_bind_of_ok (hremoved _ _) _))]
        rfl
      | some s =>
        cases hc : check s trace with
        | error fault t =>
          rw [run_bind_of_error ((run_tryCatch_of_error (fill_refused made _ _ hs hc) _).trans
            (run_bind_of_ok (hremoved _ _) _))]
          exact (run_bind_of_error (Filing.run_ofTraced_fault hc _) _).symm
        | ok u t =>
          rw [run_bind_of_ok (run_tryCatch_of_ok (fill_ok made _ _ hs hc) _)]
          refine Eq.trans ?_ (run_bind_of_ok (Filing.run_ofTraced_ok hc _) _).symm
          exact Filing.run_change_congr (Disk.replace_eq_store hp habsent s)

/-- What one write does: it fails and leaves the new directories, or it changes one more place. -/
theorem writeChecked_cases (target : DiskPath) (text : CodeText) (check : String → Traced Unit)
    (w : Workspace) : let made := (w.disk.makeDirectories target.parent).1
    (∃ fault t, writeChecked target text check w = .error fault ⟨made, t⟩) ∨
    ∃ place s t, made.placeOf target = .ok place ∧ made.at? place ≠ some .directory ∧
      text.string? = some s ∧ check s w.trace = .ok () t ∧
      writeChecked target text check w = .ok () ⟨made.put place (.file (.text s)), t⟩ := by
  intro made
  obtain ⟨d, trace⟩ := w
  rw [writeChecked_eq, writeDirect]
  cases hfault : (d.makeDirectories target.parent).2 with
  | some fault =>
    exact .inl ⟨fault, trace, run_bind_of_error (Filing.run_change_fault (Prod.ext rfl hfault)) _⟩
  | none =>
    have hmade : d.makeDirectories target.parent = (made, none) := Prod.ext rfl hfault
    rw [run_bind_of_ok (Filing.run_change_ok hmade), run_get_bind]
    dsimp only
    cases hp : made.placeOf target.parent with
    | error o => exact .inl ⟨_, trace, rfl⟩
    | ok directory =>
      dsimp only
      cases hs : text.string? with
      | none => exact .inl ⟨_, trace, rfl⟩
      | some s =>
        cases hc : check s trace with
        | error fault t =>
          exact .inl ⟨fault, t, run_bind_of_error (Filing.run_ofTraced_fault hc _) _⟩
        | ok u t =>
          dsimp only
          rw [run_bind_of_ok (Filing.run_ofTraced_ok hc _)]
          obtain ⟨after, fault, hstore⟩ : ∃ after fault, made.store target s = (after, fault) :=
            ⟨_, _, rfl⟩
          cases fault with
          | some fault =>
            cases Disk.store_fault hstore
            exact .inl ⟨fault, t, Filing.run_change_fault hstore⟩
          | none =>
            obtain ⟨place, hplace, hfree, rfl⟩ := Disk.store_ok.mp hstore
            exact .inr ⟨place, s, t, hplace, hfree, rfl, hc, Filing.run_change_ok hstore⟩

end

end PrintGen
