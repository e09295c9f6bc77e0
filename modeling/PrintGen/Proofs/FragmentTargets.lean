import PrintGen.Proofs.MetadataNames
import PrintGen.Proofs.PlainWrites
import PrintGen.Proofs.Repeats

/-!
# The targets of fragments

A key without slashes stands for one file in the output directory. A run that may not overwrite
looks at all targets first and stops at the first one that speaks against it. Otherwise it goes
through the fragments one by one, and leaves out the targets that exist.
-/

namespace PrintGen

open Syntax (Parsed)
open Text (CodeText)

/-! ## One target for each key -/

theorem length_fileName (key : String) : (key ++ ".cs").toList.length = key.toList.length + 3 := by
  rw [String.toList_append, List.length_append]
  rfl

/-- No key gives a name that is dropped from a path or leads back. -/
theorem fileName_ne (key name : String) (h : name.toList.length ≤ 2) : key ++ ".cs" ≠ name := by
  intro he
  rw [← he, length_fileName] at h
  omega

theorem fileName_inj {key other : String} (h : key ++ ".cs" = other ++ ".cs") : key = other := by
  have hlist := congrArg String.toList h
  rw [String.toList_append, String.toList_append, List.append_cancel_right_eq] at hlist
  exact String.toList_inj.mp hlist

/-- The target of a key without slashes is a file in the directory. -/
theorem fragmentPath_eq {key : String} (h : '/' ∉ key.toList) (directory : DiskPath) :
    fragmentPath directory key = directory.inside (key ++ ".cs") := by
  have hslash : '/' ∉ (key ++ ".cs").toList := by
    rw [String.toList_append, List.mem_append]
    exact not_or.mpr ⟨h, by decide⟩
  have hparts : DiskPath.ofText (key ++ ".cs") = ⟨0, [key ++ ".cs"]⟩ := by
    have hstart : ((key ++ ".cs").toList.takeWhile (· = '/')).length = 0 := by
      rw [List.length_eq_zero_iff, List.takeWhile_eq_nil_iff]
      intro hpos he
      exact hslash (of_decide_eq_true he ▸ List.getElem_mem _)
    rw [DiskPath.ofText, hstart, Text.splitOn_of_not_mem hslash, List.map_singleton,
      String.ofList_toList, List.filter_cons_of_pos]
    · rfl
    · simp [fileName_ne key "" (by decide), fileName_ne key "." (by decide)]
  rw [fragmentPath, hparts]
  rfl

/-- Where the file of a key is. -/
theorem Disk.placeOf_fragmentPath {d : Disk} {directory : DiskPath} {key : String}
    (hkey : '/' ∉ key.toList) {place : List String}
    (h : d.placeOf (fragmentPath directory key) = .ok place) :
    ∃ last, place = last ++ [key ++ ".cs"] := by
  rw [fragmentPath_eq hkey, Disk.placeOf_inside] at h
  obtain ⟨last, _, _, hplace⟩ := h
  exact ⟨last, by rw [hplace, if_neg (fileName_ne key ".." (by decide))]⟩

/-! ## The check -/

/-- What stands against writing a fragment: its target cannot be read or has another text. -/
def conflict? (d : Disk) (directory : DiskPath) (f : Fragment) : Option Fault :=
  let target := fragmentPath directory f.key
  if d.hasPath target then
    match d.readText target with
    | .error fault => some fault
    | .ok text => if .ofString text = f.text then none else some (.outputExists target.text)
  else none

section

variable {d : Disk} {directory : DiskPath} {fragments : List Fragment}

theorem upToDate_cons (f : Fragment) (rest : List (Fragment × DiskPath)) :
    upToDate d ((f, fragmentPath directory f.key) :: rest) =
      (conflict? d directory f).elim
        ((upToDate d rest).map fun current => if d.hasPath (fragmentPath directory f.key) then
          fragmentPath directory f.key :: current else current) .error := by
  rw [upToDate, conflict?]
  cases d.hasPath (fragmentPath directory f.key) with
  | false => cases upToDate d rest <;> rfl
  | true =>
    cases d.readText (fragmentPath directory f.key) with
    | error fault => rfl
    | ok text =>
      simp only [if_true, except_ok_bind]
      by_cases h : CodeText.ofString text = f.text
      · simp only [h, if_true]
        cases upToDate d rest <;> rfl
      · simp only [h, if_false]
        rfl

/-- The check stops at the first conflict. -/
theorem upToDate_conflict {fault : Fault}
    (h : fragments.findSome? (conflict? d directory) = some fault) :
    upToDate d (fragments.map fun f => (f, fragmentPath directory f.key)) = .error fault := by
  induction fragments with
  | nil => cases h
  | cons f rest ih =>
    rw [List.map_cons, upToDate_cons]
    rw [List.findSome?_cons] at h
    cases hf : conflict? d directory f with
    | some found =>
      rw [hf] at h
      cases h
      rfl
    | none =>
      rw [hf] at h
      rw [ih h]
      rfl

/-- Without a conflict the check lists the targets that exist. -/
theorem upToDate_clear (h : ∀ f ∈ fragments, conflict? d directory f = none) :
    upToDate d (fragments.map fun f => (f, fragmentPath directory f.key)) =
      .ok ((fragments.map fun f => fragmentPath directory f.key).filter d.hasPath) := by
  induction fragments with
  | nil => rfl
  | cons f rest ih =>
    obtain ⟨hf, hrest⟩ := List.forall_mem_cons.mp h
    rw [List.map_cons, upToDate_cons, hf, ih hrest, List.map_cons, List.filter_cons]
    rfl

end

/-! ## Runs -/

/-- The targets that a run leaves out. -/
def leftOut (d : Disk) (mode : OutputMode) (directory : DiskPath) (fragments : List Fragment) :
    List DiskPath :=
  if mode = .errorIfExists then
    (fragments.map fun f => fragmentPath directory f.key).filter d.hasPath
  else []

/-- Writes a fragment into a directory, unless its target is left out. -/
def writeInto (parse : Fragment → Parsed) (directory : DiskPath) (validate : Bool)
    (current : List DiskPath) (f : Fragment) : Filing DiskPath :=
  writeFragment parse validate current f (fragmentPath directory f.key)

section

variable {parse : Fragment → Parsed} {directory : DiskPath} {output : OutputSettings}
  {fragments : List Fragment} {w : Workspace}

/-- A conflict stops a run before anything is done. -/
theorem writeFragments_conflict {fault : Fault} (hmode : output.mode = .errorIfExists)
    (h : fragments.findSome? (conflict? w.disk directory) = some fault) :
    writeFragments parse directory output fragments w = .error fault w := by
  rw [writeFragments]
  dsimp only
  rw [if_pos hmode, run_get_bind]
  refine run_bind_of_error ?_ _
  rw [upToDate_conflict h]
  rfl

/-- A run without conflicts goes through the fragments one by one. -/
theorem writeFragments_clear (h : output.mode = .errorIfExists → ∀ f ∈ fragments,
      conflict? w.disk directory f = none) :
    writeFragments parse directory output fragments w = fragments.mapM (writeInto parse directory
      output.validate (leftOut w.disk output.mode directory fragments)) w := by
  rw [writeFragments, leftOut]
  dsimp only
  by_cases hmode : output.mode = .errorIfExists
  · rw [if_pos hmode, if_pos hmode, run_get_bind, upToDate_clear (h hmode)]
    refine (run_bind_of_ok rfl _).trans ?_
    rw [List.mapM_map]
    rfl
  · rw [if_neg hmode, if_neg hmode]
    refine (run_bind_of_ok rfl _).trans ?_
    rw [List.mapM_map]
    rfl

/-- What writing one fragment does: its target is left out, the write fails and leaves the new
directories, or it changes one more place. -/
theorem writeInto_cases (parse : Fragment → Parsed) (directory : DiskPath) (validate : Bool)
    (current : List DiskPath) (f : Fragment) (w : Workspace) :
    let target := fragmentPath directory f.key
    let made := (w.disk.makeDirectories target.parent).1
    (target ∈ current ∧
      ∃ t, writeInto parse directory validate current f w = .ok target ⟨w.disk, t⟩) ∨
    (target ∉ current ∧
      ∃ fault t, writeInto parse directory validate current f w = .error fault ⟨made, t⟩) ∨
    (target ∉ current ∧ ∃ place s t, made.placeOf target = .ok place ∧
      made.at? place ≠ some .directory ∧ f.text.string? = some s ∧
      writeInto parse directory validate current f w =
        .ok target ⟨made.put place (.file (.text s)), t⟩) := by
  intro target made
  rw [writeInto, writeFragment]
  by_cases hcurrent : target ∈ current
  · rw [if_pos (List.contains_iff_mem.mpr hcurrent)]
    exact .inl ⟨hcurrent, _, rfl⟩
  · rw [if_neg (by rw [List.contains_iff_mem]; exact hcurrent)]
    rcases writeChecked_cases target f.text
        (fun s => if validate then checkText (parse f) s else pure ()) w with
      ⟨fault, t, hrun⟩ | ⟨place, s, t, hplace, hfree, hs, _, hrun⟩
    · exact .inr (.inl ⟨hcurrent, fault, t, run_bind_of_error hrun _⟩)
    · exact .inr (.inr ⟨hcurrent, place, s, _, hplace, hfree, hs, run_bind_of_ok hrun _⟩)

theorem Ends.state {ε σ α : Type} {Q : σ → Prop} {P : α → σ → Prop} {r : EStateM.Result ε σ α}
    (h : Ends Q P r) : Q (stateOf r) := by
  cases r with
  | ok a s => exact h.1
  | error e s => exact h

/-- **What a run keeps**: anything that making directories keeps, and that writing a file keeps
wherever the target of a fragment leads. -/
theorem run_keeps {Q : Disk → Prop} {validate : Bool} {current : List DiskPath}
    (hmade : ∀ d p, Q d → Q (d.makeDirectories p).1)
    (hput : ∀ f ∈ fragments, fragmentPath directory f.key ∉ current → ∀ d place s, Q d →
      d.placeOf (fragmentPath directory f.key) = .ok place → d.at? place ≠ some .directory →
      Q (d.put place (.file (.text s)))) (h : Q w.disk) :
    Q (stateOf (fragments.mapM (writeInto parse directory validate current) w)).disk := by
  have hstep : ∀ f ∈ fragments, ∀ w : Workspace, Q w.disk →
      Ends (fun w => Q w.disk) (fun _ _ => True)
        (writeInto parse directory validate current f w) := by
    intro f hf w hw
    rcases writeInto_cases parse directory validate current f w with
      ⟨_, t, hrun⟩ | ⟨_, fault, t, hrun⟩ | ⟨hnot, place, s, t, hplace, hfree, _, hrun⟩
    · rw [hrun]
      exact ⟨hw, trivial⟩
    · rw [hrun]
      exact hmade _ _ hw
    · rw [hrun]
      exact ⟨hput f hf hnot _ place s (hmade _ _ hw) hplace hfree, trivial⟩
  have hrun : Ends (fun w => Q w.disk) (fun _ _ => True)
      (fragments.mapM (writeInto parse directory validate current) w) := by
    clear hput
    induction fragments generalizing w with
    | nil => exact .pure h trivial
    | cons f rest ih =>
      obtain ⟨hf, hrest⟩ := List.forall_mem_cons.mp hstep
      rw [List.mapM_cons]
      refine (hf w h).bind fun target mid hmid _ => ?_
      refine (ih hmid hrest).bind fun targets last hlast _ => ?_
      exact .pure hlast trivial
  exact hrun.state

end

end PrintGen
