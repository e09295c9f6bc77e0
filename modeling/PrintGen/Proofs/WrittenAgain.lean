import PrintGen.Proofs.GuardedFiles

/-!
# Writing again

After a run each target has the text of its fragment, or one that reads like it. A second run that
may not overwrite then finds all targets up to date and does nothing. There is one exception: a
text is stored as it is but read with all line ends as line feeds, so a text with a carriage return
never reads back as it was written, and the second run takes its file for a foreign one.
-/

namespace PrintGen

open Syntax (Parsed)
open Text (CodeText)

namespace Disk

/-- Writing the file of one key leaves the files of the others alone. -/
theorem find?_put_other {d : Disk} {directory : DiskPath} {key other : String}
    (hkey : '/' ∉ key.toList) (hother : '/' ∉ other.toList) (hne : other ≠ key)
    {place : List String} (hplace : d.placeOf (fragmentPath directory other) = .ok place)
    (hfree : d.at? place ≠ some .directory) (e : DiskEntry) {old : DiskEntry}
    (h : d.find? (fragmentPath directory key) = some old) :
    (d.put place e).find? (fragmentPath directory key) = some old := by
  obtain ⟨target, htarget, hold⟩ := find?_eq_some.mp h
  obtain ⟨last, rfl⟩ := placeOf_fragmentPath hother hplace
  obtain ⟨last', rfl⟩ := placeOf_fragmentPath hkey htarget
  refine find?_eq_some.mpr ⟨_, (KeepsDirectories.put hfree e).placeOf htarget, ?_⟩
  rw [at?_put d (by simp), if_neg, hold]
  intro he
  exact hne (fileName_inj (List.singleton_inj.mp (List.append_inj' he rfl).2)).symm

end Disk

/-! ## What a run leaves -/

section

variable {parse : Fragment → Parsed} {directory : DiskPath} {validate : Bool}
  {current : List DiskPath} {fragments : List Fragment} {w w' : Workspace} {paths : List DiskPath}

/-- A target that a run does not write keeps what it has. -/
theorem run_keeps_target (hkeys : ∀ g ∈ fragments, '/' ∉ g.key.toList) {key : String}
    (hkey : '/' ∉ key.toList)
    (hother : ∀ g ∈ fragments, fragmentPath directory g.key ∉ current → g.key ≠ key)
    {e : DiskEntry} (h : w.disk.find? (fragmentPath directory key) = some e) :
    (stateOf (fragments.mapM (writeInto parse directory validate current) w)).disk.find?
      (fragmentPath directory key) = some e := by
  refine run_keeps (Q := fun d => d.find? (fragmentPath directory key) = some e) ?_ ?_ h
  · exact fun d p hd => (Disk.makeDirectories_extends d p).find? hd
  · intro g hg hnot d place s hd hplace hfree
    exact Disk.find?_put_other hkey (hkeys g hg) (hother g hg hnot) hplace hfree _ hd

/-- A run that succeeds returns the targets, and each one that it did not leave out has the text of
its fragment. -/
theorem run_writes (hkeys : ∀ f ∈ fragments, '/' ∉ f.key.toList)
    (hdistinct : (fragments.map Fragment.key).Nodup)
    (h : fragments.mapM (writeInto parse directory validate current) w = .ok paths w') :
    paths = fragments.map (fun f => fragmentPath directory f.key) ∧
      ∀ f ∈ fragments, fragmentPath directory f.key ∉ current →
        ∃ s, f.text = .ofString s ∧
          w'.disk.find? (fragmentPath directory f.key) = some (.file (.text s)) := by
  induction fragments generalizing w paths with
  | nil =>
    obtain ⟨rfl, _⟩ := run_pure_ok.mp h
    exact ⟨rfl, by simp⟩
  | cons f rest ih =>
    obtain ⟨hf, hrest⟩ := List.forall_mem_cons.mp hkeys
    obtain ⟨hfresh, hrestDistinct⟩ := List.nodup_cons.mp hdistinct
    rw [List.mapM_cons] at h
    obtain ⟨target, mid, hone, h⟩ := run_bind_ok.mp h
    obtain ⟨targets, last, hmore, h⟩ := run_bind_ok.mp h
    obtain ⟨rfl, rfl⟩ := run_pure_ok.mp h
    obtain ⟨rfl, hwritten⟩ := ih hrest hrestDistinct hmore
    rcases writeInto_cases parse directory validate current f w with
      ⟨hin, t, hrun⟩ | ⟨_, fault, t, hrun⟩ | ⟨hnot, place, s, t, hplace, hfree, hs, hrun⟩
    · rw [hone] at hrun
      cases hrun
      refine ⟨rfl, List.forall_mem_cons.mpr ⟨fun hnot => absurd hin hnot, hwritten⟩⟩
    · rw [hone] at hrun
      cases hrun
    · rw [hone, EStateM.Result.ok.injEq] at hrun
      obtain ⟨rfl, hmid⟩ := hrun
      refine ⟨rfl, List.forall_mem_cons.mpr ⟨fun _ => ⟨s, CodeText.string?_eq_some.mp hs, ?_⟩,
        hwritten⟩⟩
      have hhas : mid.disk.find? (fragmentPath directory f.key) = some (.file (.text s)) := by
        rw [hmid]
        exact Disk.find?_put_self hplace hfree _
      -- the rest of the run goes to other files
      have hkept : (stateOf (rest.mapM (writeInto parse directory validate current) mid)).disk.find?
          (fragmentPath directory f.key) = some (.file (.text s)) :=
        run_keeps_target hrest hf (fun g hg _ he => hfresh (he ▸ List.mem_map_of_mem hg)) hhas
      rw [hmore] at hkept
      exact hkept

end

/-! ## What a second run finds -/

section

variable {d : Disk} {directory : DiskPath} {f : Fragment} {s : String}

/-- A target that is there without a conflict reads like its fragment. -/
theorem readable_of_clear (hp : d.hasPath (fragmentPath directory f.key) = true)
    (h : conflict? d directory f = none) :
    ∃ s, d.find? (fragmentPath directory f.key) = some (.file (.text s)) ∧
      f.text = .ofString (String.ofList (Text.unifyLineEnds s.toList)) := by
  rw [conflict?, if_pos hp] at h
  cases hr : d.readText (fragmentPath directory f.key) with
  | error fault =>
    rw [hr] at h
    cases h
  | ok text =>
    rw [hr] at h
    dsimp only at h
    obtain ⟨s, hs, rfl⟩ := Disk.readText_ok.mp hr
    refine ⟨s, hs, ?_⟩
    split at h
    · exact Eq.symm ‹_›
    · cases h

/-- A stored text stands against its fragment exactly if it has a carriage return. -/
theorem conflict?_of_find? (h : d.find? (fragmentPath directory f.key) = some (.file (.text s)))
    (ht : f.text = .ofString s ∨ f.text = .ofString (String.ofList (Text.unifyLineEnds s.toList))) :
    conflict? d directory f = if .char '\r' ∈ f.text then
      some (.outputExists (fragmentPath directory f.key).text) else none := by
  have hread : CodeText.ofString (String.ofList (Text.unifyLineEnds s.toList)) = f.text ↔
      .char '\r' ∉ f.text := by
    have hnone : Text.CodePoint.char '\r' ∉
        CodeText.ofString (String.ofList (Text.unifyLineEnds s.toList)) := by
      rw [CodeText.mem_ofString, String.toList_ofList]
      exact Text.return_not_mem_unifyLineEnds s.toList
    constructor
    · intro he
      exact he ▸ hnone
    · intro hr
      rcases ht with ht | ht
      · rw [ht, CodeText.mem_ofString] at hr
        rw [ht, Text.unifyLineEnds_of_not_mem hr, String.ofList_toList]
      · exact ht.symm
  have hp := Disk.readText_ok.mpr ⟨s, h, rfl⟩
  rw [conflict?, if_pos (hasPath_of_readText hp), hp]
  by_cases hr : .char '\r' ∈ f.text <;> simp [hread, hr]

end

section

variable {parse : Fragment → Parsed} {directory : DiskPath} {output : OutputSettings}
  {fragments : List Fragment} {w w' : Workspace} {paths : List DiskPath}

/-- After a run each target has the text of its fragment, or one that reads like it. -/
theorem targets_after_run (hkeys : ∀ f ∈ fragments, '/' ∉ f.key.toList)
    (hdistinct : (fragments.map Fragment.key).Nodup)
    (h : writeFragments parse directory output fragments w = .ok paths w') :
    paths = fragments.map (fun f => fragmentPath directory f.key) ∧
      ∀ f ∈ fragments, ∃ s,
        w'.disk.find? (fragmentPath directory f.key) = some (.file (.text s)) ∧
        (f.text = .ofString s ∨
          f.text = .ofString (String.ofList (Text.unifyLineEnds s.toList))) := by
  have hclear : output.mode = .errorIfExists → ∀ f ∈ fragments,
      conflict? w.disk directory f = none := by
    intro hmode
    rcases guarded_run_cases parse directory hmode fragments w with ⟨fault, _, hrun⟩ | ⟨hclear, _⟩
    · rw [h] at hrun
      cases hrun
    · exact hclear
  rw [writeFragments_clear hclear] at h
  obtain ⟨hpaths, hwritten⟩ := run_writes hkeys hdistinct h
  refine ⟨hpaths, fun f hf => ?_⟩
  by_cases hin : fragmentPath directory f.key ∈ leftOut w.disk output.mode directory fragments
  · -- the target was up to date before the run
    have hmode : output.mode = .errorIfExists := by
      by_contra hmode
      rw [leftOut, if_neg hmode] at hin
      cases hin
    have hpath := hin
    rw [leftOut, if_pos hmode] at hpath
    obtain ⟨s, hs, htext⟩ := readable_of_clear (List.mem_filter.mp hpath).2 (hclear hmode f hf)
    have hkept : (stateOf (fragments.mapM (writeInto parse directory output.validate
        (leftOut w.disk output.mode directory fragments)) w)).disk.find?
          (fragmentPath directory f.key) = some (.file (.text s)) :=
      run_keeps_target hkeys (hkeys f hf) (fun g _ hnot he => hnot (he ▸ hin)) hs
    rw [h] at hkept
    exact ⟨s, hkept, .inr htext⟩
  · obtain ⟨s, htext, hs⟩ := hwritten f hf hin
    exact ⟨s, hs, .inl htext⟩

/-- A run that leaves out all targets does nothing. -/
theorem run_of_leftOut {validate : Bool} {current : List DiskPath}
    (h : ∀ f ∈ fragments, fragmentPath directory f.key ∈ current) :
    ∃ t, fragments.mapM (writeInto parse directory validate current) w =
      .ok (fragments.map fun f => fragmentPath directory f.key) ⟨w.disk, t⟩ := by
  induction fragments generalizing w with
  | nil => exact ⟨w.trace, rfl⟩
  | cons f rest ih =>
    obtain ⟨hf, hrest⟩ := List.forall_mem_cons.mp h
    rcases writeInto_cases parse directory validate current f w with
      ⟨_, t, hrun⟩ | ⟨hnot, _⟩ | ⟨hnot, _⟩
    · obtain ⟨t', hmore⟩ := ih (w := ⟨w.disk, t⟩) hrest
      refine ⟨t', ?_⟩
      rw [List.mapM_cons, run_bind_of_ok hrun, run_bind_of_ok hmore]
      rfl
    · exact absurd hf hnot
    · exact absurd hf hnot

/-- **Writing again changes nothing, unless a text has a carriage return.** After a run that
succeeded, in whatever mode, a second run that may not overwrite returns the same files and leaves
the disk alone. It stops at the first text with a carriage return if there is one. -/
theorem second_run_changes_nothing (hkeys : ∀ f ∈ fragments, '/' ∉ f.key.toList)
    (hdistinct : (fragments.map Fragment.key).Nodup)
    (h : writeFragments parse directory output fragments w = .ok paths w')
    (reparse : Fragment → Parsed) (again : OutputSettings)
    (hagain : again.mode = .errorIfExists) :
    ((∀ f ∈ fragments, .char '\r' ∉ f.text) →
      ∃ t, writeFragments reparse directory again fragments w' = .ok paths ⟨w'.disk, t⟩) ∧
    ∀ earlier f later, fragments = earlier ++ f :: later → (∀ g ∈ earlier, .char '\r' ∉ g.text) →
      .char '\r' ∈ f.text →
      writeFragments reparse directory again fragments w' =
        .error (.outputExists (fragmentPath directory f.key).text) w' := by
  obtain ⟨rfl, hheld⟩ := targets_after_run hkeys hdistinct h
  have hconflict : ∀ f ∈ fragments, conflict? w'.disk directory f =
      if .char '\r' ∈ f.text then some (.outputExists (fragmentPath directory f.key).text)
      else none := by
    intro f hf
    obtain ⟨s, hs, htext⟩ := hheld f hf
    exact conflict?_of_find? hs htext
  constructor
  · intro hclean
    have hclear : ∀ f ∈ fragments, conflict? w'.disk directory f = none := by
      intro f hf
      rw [hconflict f hf, if_neg (hclean f hf)]
    rw [writeFragments_clear fun _ => hclear]
    refine run_of_leftOut fun f hf => ?_
    obtain ⟨s, hs, _⟩ := hheld f hf
    rw [leftOut, if_pos hagain, List.mem_filter, Disk.hasPath, hs]
    exact ⟨List.mem_map_of_mem hf, rfl⟩
  · rintro earlier f later rfl hearlier hreturn
    refine writeFragments_conflict hagain (List.findSome?_eq_some_iff.mpr
      ⟨earlier, f, later, rfl, ?_, fun g hg => ?_⟩)
    · rw [hconflict f (by simp), if_pos hreturn]
    · rw [hconflict g (by simp [hg]), if_neg (hearlier g hg)]

end

theorem ok_of_run' {ε σ α : Type} {x : EStateM ε σ α} {s : σ} {a : α} (h : x.run' s = some a) :
    ∃ t, x s = .ok a t := by
  delta EStateM.run' EStateM.run at h
  cases hx : x s with
  | ok b t =>
    rw [hx] at h
    cases h
    exact ⟨t, rfl⟩
  | error e t =>
    rw [hx] at h
    cases h

namespace Sample

/-- An empty directory. -/
def emptyPlace : Workspace :=
  ⟨⟨[(["W"], .directory)], ["W"]⟩, []⟩

/-- A fragment with a carriage return before each line feed. -/
def returning : Fragment :=
  ⟨"K", .ofString "using System;\r\n\r\npartial class K\r\n\x7b\r\n\x7d\r\n"⟩

end Sample

theorem forced_run_then_second_run : ∃ after trace,
    writeFragments Sample.accepting ⟨1, ["W", "out"]⟩ ⟨.force, true⟩
      [Sample.declaring "J", Sample.declaring "K"] Sample.workplace =
        .ok [⟨1, ["W", "out", "J.cs"]⟩, ⟨1, ["W", "out", "K.cs"]⟩] after ∧
    writeFragments Sample.accepting ⟨1, ["W", "out"]⟩ .default
      [Sample.declaring "J", Sample.declaring "K"] after =
        .ok [⟨1, ["W", "out", "J.cs"]⟩, ⟨1, ["W", "out", "K.cs"]⟩] ⟨after.disk, trace⟩ := by
  have hfirst : (writeFragments Sample.accepting ⟨1, ["W", "out"]⟩ ⟨.force, true⟩
      [Sample.declaring "J", Sample.declaring "K"]).run' Sample.workplace =
        some [⟨1, ["W", "out", "J.cs"]⟩, ⟨1, ["W", "out", "K.cs"]⟩] := by
    decide +kernel
  obtain ⟨after, hrun⟩ := ok_of_run' hfirst
  obtain ⟨trace, hsecond⟩ := (second_run_changes_nothing (by decide) (by decide) hrun
    Sample.accepting .default rfl).1 (by decide +kernel)
  exact ⟨after, trace, hrun, hsecond⟩

/-- A text with carriage returns is written once and refused the next time. -/
theorem second_run_refuses_returns :
    (writeFragments Sample.accepting ⟨1, ["W", "out"]⟩ .default [Sample.returning]).run'
        Sample.emptyPlace = some [⟨1, ["W", "out", "K.cs"]⟩] ∧
    (writeFragments Sample.accepting ⟨1, ["W", "out"]⟩ .default [Sample.returning]).run'
        (stateOf (writeFragments Sample.accepting ⟨1, ["W", "out"]⟩ .default [Sample.returning]
          Sample.emptyPlace)) = none := by
  decide +kernel

end PrintGen
