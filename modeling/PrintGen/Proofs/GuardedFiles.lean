import PrintGen.Proofs.FragmentTargets

/-!
# Files that a run may not touch

A run that may not overwrite looks at its targets before it makes any directory. A target that
leads nowhere then can only be made to lead to an old file by a directory that was missing and that
double dots lead back from. Without such a detour everything on the disk stays as it was, however
the run ends; and a target with another text stops the run before anything is done.
-/

namespace PrintGen

open Syntax (Parsed)
open Text (CodeText)

namespace Disk

/-- Whatever stands on the disk stands in a directory. -/
def Rooted (d : Disk) : Prop :=
  ∀ place e, d.at? place = some e → d.at? place.dropLast = some .directory

theorem Rooted.of_entries {d : Disk}
    (h : ∀ entry ∈ d.entries, d.at? entry.1.dropLast = some .directory) : d.Rooted := by
  intro place e he
  by_cases hp : place = []
  · rw [hp]
    rfl
  · rw [at?_of_ne d hp] at he
    obtain ⟨before, after, hentries, _⟩ := List.lookup_eq_some_iff.mp he
    exact h (place, e) (by simp [hentries])

/-- Nothing stands below a place where nothing stands. -/
theorem Rooted.absent_below {d : Disk} (h : d.Rooted) {place : List String}
    (ha : d.at? place = none) (name : String) : d.at? (place ++ [name]) = none := by
  cases hb : d.at? (place ++ [name]) with
  | none => rfl
  | some e =>
    have hd := h _ e hb
    rw [List.dropLast_concat, ha] at hd
    cases hd

/-- Whether something is missing at a path or on the way. -/
def lacks (d : Disk) (p : DiskPath) : Bool :=
  match d.placeOf p with
  | .ok place => (d.at? place).isNone
  | .error o => o = .missing

/-- Double dots never lead back from something that is missing. -/
def Direct (d : Disk) (p : DiskPath) : Prop :=
  ∀ i < p.parts.length, p.parts[i]? = some ".." → d.lacks ⟨p.slashes, p.parts.take i⟩ = false

instance (d : Disk) (p : DiskPath) : Decidable (d.Direct p) :=
  inferInstanceAs (Decidable (∀ i < _, _))

section

variable {d d' : Disk} {p : DiskPath} {name : String}

theorem direct_inside : d.Direct (p.inside name) ↔
    d.Direct p ∧ (name = ".." → d.lacks p = false) := by
  rw [Direct, Direct, DiskPath.inside]
  constructor
  · intro h
    constructor
    · intro i hi hdots
      have hin := h i (by simp; omega)
      rw [List.getElem?_append_left hi, List.take_append_of_le_length hi.le] at hin
      exact hin hdots
    · rintro rfl
      have hlast := h p.parts.length (by simp)
      rw [List.getElem?_concat_length, List.take_left] at hlast
      exact hlast rfl
  · rintro ⟨hp, hname⟩ i hi hdots
    by_cases hlt : i < p.parts.length
    · rw [List.getElem?_append_left hlt] at hdots
      rw [List.take_append_of_le_length hlt.le]
      exact hp i hlt hdots
    · have hlast : i = p.parts.length := by simp at hi; omega
      rw [hlast, List.getElem?_concat_length] at hdots
      rw [hlast, List.take_left]
      exact hname (Option.some.inj hdots)

/-- A file on the way stays in the way. -/
theorem Extends.walk_file (h : Extends d d') {place : List String} {names : List String}
    (hw : d.walk place names = .error .file) : d'.walk place names = .error .file := by
  induction names generalizing place with
  | nil => cases hw
  | cons name rest ih =>
    rw [walk] at hw ⊢
    cases ha : d.at? place with
    | none =>
      rw [ha] at hw
      cases hw
    | some e =>
      rw [ha] at hw
      rw [h.entries place e ha]
      cases e with
      | file content => rfl
      | directory => exact ih hw

/-- What a disk does not lack is found in the same place after more has been added. -/
theorem Extends.placeOf_of_lacks (h : Extends d d') {place : List String}
    (hl : d.lacks p = false) (hp : d'.placeOf p = .ok place) :
    d.placeOf p = .ok place ∧ d.at? place = d'.at? place := by
  rw [lacks] at hl
  cases hw : d.placeOf p with
  | ok old =>
    have hsame : d'.placeOf p = .ok old := h.keeps.placeOf hw
    rw [hp] at hsame
    cases hsame
    rw [hw] at hl
    dsimp only at hl
    cases ha : d.at? place with
    | none =>
      rw [ha] at hl
      cases hl
    | some e => exact ⟨rfl, (h.entries place e ha).symm⟩
  | error o =>
    cases o with
    | missing =>
      rw [hw] at hl
      cases hl
    | file =>
      have hfile : d'.placeOf p = .error .file := by
        rw [Disk.placeOf, h.current]
        exact h.walk_file hw
      rw [hp] at hfile
      cases hfile

/-- **Without detours, a path that new directories make lead somewhere leads where it did or to a
place where nothing was.** -/
theorem Extends.placeOf_direct (h : Extends d d') (hr : d.Rooted) (hdirect : d.Direct p)
    {place : List String} (hp : d'.placeOf p = .ok place) :
    d.placeOf p = .ok place ∨ d.at? place = none := by
  obtain ⟨slashes, parts⟩ := p
  induction parts using List.reverseRecOn generalizing place with
  | nil =>
    rw [Disk.placeOf, h.current] at hp
    exact .inl hp
  | append_singleton names name ih =>
    have hinside : (⟨slashes, names ++ [name]⟩ : DiskPath) =
        DiskPath.inside ⟨slashes, names⟩ name := rfl
    rw [hinside] at hdirect hp ⊢
    obtain ⟨hnames, hname⟩ := direct_inside.mp hdirect
    obtain ⟨directory, hlast, hdirectory, hplace⟩ := placeOf_inside.mp hp
    by_cases hdots : name = ".."
    · obtain ⟨hold, hat⟩ := h.placeOf_of_lacks (hname hdots) hlast
      exact .inl (placeOf_inside.mpr ⟨directory, hold, hat.trans hdirectory, hplace⟩)
    · rw [if_neg hdots] at hplace
      cases hat : d.at? directory with
      | none =>
        rw [hplace]
        exact .inr (hr.absent_below hat name)
      | some e =>
        rcases ih hnames hlast with hold | hnone
        · have he := h.entries directory e hat
          rw [hdirectory] at he
          cases he
          exact .inl (placeOf_inside.mpr ⟨directory, hold, hat, by rw [hplace, if_neg hdots]⟩)
        · rw [hnone] at hat
          cases hat

end

end Disk

/-! ## Conflicts -/

section

variable {d : Disk} {directory : DiskPath} {f : Fragment} {fault : Fault}

theorem hasPath_of_readText {p : DiskPath} {text : String} (h : d.readText p = .ok text) :
    d.hasPath p = true := by
  obtain ⟨s, hs, _⟩ := Disk.readText_ok.mp h
  rw [Disk.hasPath, hs]
  rfl

/-- A conflict is another text, or a target that cannot be read. -/
theorem conflict?_eq_some : conflict? d directory f = some fault ↔
    (∃ text, d.readText (fragmentPath directory f.key) = .ok text ∧ .ofString text ≠ f.text ∧
      fault = .outputExists (fragmentPath directory f.key).text) ∨
    d.hasPath (fragmentPath directory f.key) = true ∧
      d.readText (fragmentPath directory f.key) = .error fault := by
  rw [conflict?]
  cases hr : d.readText (fragmentPath directory f.key) with
  | error e => simp
  | ok text =>
    by_cases h : CodeText.ofString text = f.text
    · simp [h]
    · simp [h, hasPath_of_readText hr, eq_comm (a := fault)]

end

/-! ## Runs that may not overwrite -/

section

variable {parse : Fragment → Parsed} {directory : DiskPath} {output : OutputSettings}
  {fragments : List Fragment} {w : Workspace}

/-- A run stops at the first conflict, or goes through the targets that lead nowhere. -/
theorem guarded_run_cases (parse : Fragment → Parsed) (directory : DiskPath)
    (hmode : output.mode = .errorIfExists) (fragments : List Fragment) (w : Workspace) :
    (∃ fault, fragments.findSome? (conflict? w.disk directory) = some fault ∧
      writeFragments parse directory output fragments w = .error fault w) ∨
    (∀ f ∈ fragments, conflict? w.disk directory f = none) ∧
      writeFragments parse directory output fragments w = fragments.mapM (writeInto parse directory
        output.validate (leftOut w.disk .errorIfExists directory fragments)) w := by
  cases h : fragments.findSome? (conflict? w.disk directory) with
  | some fault => exact .inl ⟨fault, rfl, writeFragments_conflict hmode h⟩
  | none =>
    have hclear := List.findSome?_eq_none_iff.mp h
    refine .inr ⟨hclear, ?_⟩
    rw [writeFragments_clear fun _ => hclear, hmode]

theorem find?_of_not_leftOut {d : Disk} {f : Fragment} (hf : f ∈ fragments)
    (h : fragmentPath directory f.key ∉ leftOut d .errorIfExists directory fragments) :
    d.find? (fragmentPath directory f.key) = none := by
  rw [leftOut, if_pos rfl, List.mem_filter] at h
  have hnot : ¬ d.hasPath (fragmentPath directory f.key) = true :=
    fun hp => h ⟨List.mem_map_of_mem hf, hp⟩
  rw [Disk.hasPath, Option.not_isSome_iff_eq_none] at hnot
  exact hnot

/-- Such a run writes only to targets that led nowhere. -/
theorem guarded_run_keeps {Q : Disk → Prop} (hmode : output.mode = .errorIfExists)
    (hmade : ∀ d p, Q d → Q (d.makeDirectories p).1)
    (hput : ∀ f ∈ fragments, w.disk.find? (fragmentPath directory f.key) = none → ∀ d place s,
      Q d → d.placeOf (fragmentPath directory f.key) = .ok place →
      d.at? place ≠ some .directory → Q (d.put place (.file (.text s)))) (h : Q w.disk) :
    Q (stateOf (writeFragments parse directory output fragments w)).disk := by
  rcases guarded_run_cases parse directory hmode fragments w with ⟨fault, _, hrun⟩ | ⟨_, hrun⟩
  · rw [hrun]
    exact h
  · rw [hrun]
    exact run_keeps hmade (fun f hf hnot => hput f hf (find?_of_not_leftOut hf hnot)) h

/-- Without detours a run keeps everything. -/
theorem guarded_run_extends (hmode : output.mode = .errorIfExists)
    (hkeys : ∀ f ∈ fragments, '/' ∉ f.key.toList) (hr : w.disk.Rooted)
    (hdirect : w.disk.Direct directory) :
    Disk.Extends w.disk (stateOf (writeFragments parse directory output fragments w)).disk := by
  refine guarded_run_keeps (Q := Disk.Extends w.disk) hmode ?_ ?_ (.refl _)
  · exact fun d p h => h.trans (Disk.makeDirectories_extends d p)
  · intro f hf hfind d place s h hplace hfree
    rw [fragmentPath_eq (hkeys f hf)] at hplace hfind
    have hinside : w.disk.Direct (directory.inside (f.key ++ ".cs")) :=
      Disk.direct_inside.mpr ⟨hdirect, fun he => absurd he (fileName_ne f.key ".." (by decide))⟩
    refine h.put ?_ hfree _
    rcases h.placeOf_direct hr hinside hplace with hold | hnone
    · rw [Disk.find?, hold] at hfind
      exact hfind
    · exact hnone

/-- Whatever the directory is, a run changes only files named after fragments whose targets led
nowhere. -/
theorem guarded_run_keeps_other (hmode : output.mode = .errorIfExists)
    (hkeys : ∀ f ∈ fragments, '/' ∉ f.key.toList) {place : List String} {e : DiskEntry}
    (he : w.disk.at? place = some e)
    (hother : ∀ f ∈ fragments, place.getLast? = some (f.key ++ ".cs") →
      w.disk.hasPath (fragmentPath directory f.key) = true) :
    (stateOf (writeFragments parse directory output fragments w)).disk.at? place = some e := by
  refine guarded_run_keeps (Q := fun d => d.at? place = some e) hmode ?_ ?_ he
  · exact fun d p h => (Disk.makeDirectories_extends d p).entries place e h
  · intro f hf hfind d target s h htarget hfree
    obtain ⟨last, rfl⟩ := Disk.placeOf_fragmentPath (hkeys f hf) htarget
    rw [Disk.at?_put d (by simp), if_neg, h]
    rintro rfl
    have hhas := hother f hf List.getLast?_concat
    rw [Disk.hasPath, hfind] at hhas
    cases hhas

/-- **A run that may not overwrite touches no existing file, and a conflict leaves everything as it
was.** However the run ends, what was on the disk is still there, as long as the directory has no
detour; in any other directory only files named after fragments whose targets led nowhere can
change. A target with another text stops the run, there or at an earlier target that has a conflict
of its own, and nothing is done. -/
theorem guarded_run_touches_nothing (parse : Fragment → Parsed) (directory : DiskPath)
    (output : OutputSettings) (hmode : output.mode = .errorIfExists) (fragments : List Fragment)
    (hkeys : ∀ f ∈ fragments, '/' ∉ f.key.toList) (w : Workspace) :
    (w.disk.Rooted → w.disk.Direct directory → ∀ place e, w.disk.at? place = some e →
      (stateOf (writeFragments parse directory output fragments w)).disk.at? place = some e) ∧
    (∀ place e, w.disk.at? place = some e →
      (∀ f ∈ fragments, place.getLast? = some (f.key ++ ".cs") →
        w.disk.hasPath (fragmentPath directory f.key) = true) →
      (stateOf (writeFragments parse directory output fragments w)).disk.at? place = some e) ∧
    ∀ f ∈ fragments, ∀ text, w.disk.readText (fragmentPath directory f.key) = .ok text →
      .ofString text ≠ f.text →
      ∃ earlier first later fault, fragments = earlier ++ first :: later ∧ f ∈ first :: later ∧
        (∀ g ∈ earlier, conflict? w.disk directory g = none) ∧
        ((∃ other, w.disk.readText (fragmentPath directory first.key) = .ok other ∧
            .ofString other ≠ first.text ∧
            fault = .outputExists (fragmentPath directory first.key).text) ∨
          w.disk.hasPath (fragmentPath directory first.key) = true ∧
            w.disk.readText (fragmentPath directory first.key) = .error fault) ∧
        writeFragments parse directory output fragments w = .error fault w := by
  refine ⟨?_, ?_, ?_⟩
  · intro hr hdirect
    exact (guarded_run_extends hmode hkeys hr hdirect).entries
  · intro place e he hother
    exact guarded_run_keeps_other hmode hkeys he hother
  · intro f hf text hread hother
    have hconflict : conflict? w.disk directory f =
        some (.outputExists (fragmentPath directory f.key).text) :=
      conflict?_eq_some.mpr (.inl ⟨text, hread, hother, rfl⟩)
    have hsome : (fragments.findSome? (conflict? w.disk directory)).isSome = true :=
      List.findSome?_isSome_iff.mpr ⟨f, hf, by rw [hconflict]; rfl⟩
    obtain ⟨fault, hfault⟩ := Option.isSome_iff_exists.mp hsome
    obtain ⟨earlier, first, later, rfl, hfirst, hearlier⟩ := List.findSome?_eq_some_iff.mp hfault
    refine ⟨earlier, first, later, fault, rfl, ?_, hearlier, conflict?_eq_some.mp hfirst,
      writeFragments_conflict hmode hfault⟩
    rcases List.mem_append.mp hf with hmem | hmem
    · have hnone := hearlier f hmem
      rw [hconflict] at hnone
      cases hnone
    · exact hmem

end

namespace Sample

/-- Every text follows the grammar. -/
def accepting (_ : Fragment) : Parsed :=
  ⟨false, .mk (.other "compilation_unit") true false 0 0 none []⟩

/-- A fragment that declares a type. -/
def declaring (key : String) : Fragment :=
  ⟨key, .ofString ("using System;\n\npartial class " ++ key ++ "\n\x7b\n\x7d\n")⟩

/-- A directory with a file that was written by hand, and another directory beside it. -/
def workplace : Workspace :=
  ⟨⟨[(["W"], .directory), (["W", "src"], .directory), (["W", "out"], .directory),
    (["W", "out", "K.cs"], .file (.text "// hand written\n"))], ["W"]⟩, []⟩

end Sample

theorem hand_written_file_stops_run : ∃ fault,
    writeFragments Sample.accepting ⟨1, ["W", "src", "..", "out"]⟩ .default
      [Sample.declaring "J", Sample.declaring "K"] Sample.workplace =
        .error fault Sample.workplace ∧
    Sample.workplace.disk.Direct ⟨1, ["W", "src", "..", "out"]⟩ ∧
    (stateOf (writeFragments Sample.accepting ⟨1, ["W", "src", "..", "out"]⟩ .default
      [Sample.declaring "J", Sample.declaring "K"] Sample.workplace)).disk.at?
        ["W", "out", "K.cs"] = some (.file (.text "// hand written\n")) := by
  have hkeys : ∀ f ∈ [Sample.declaring "J", Sample.declaring "K"], '/' ∉ f.key.toList := by
    decide
  have hrooted : Sample.workplace.disk.Rooted := .of_entries (by decide)
  have hdirect : Sample.workplace.disk.Direct ⟨1, ["W", "src", "..", "out"]⟩ := by decide
  obtain ⟨hkept, _, hstops⟩ := guarded_run_touches_nothing Sample.accepting
    ⟨1, ["W", "src", "..", "out"]⟩ .default rfl _ hkeys Sample.workplace
  obtain ⟨_, _, _, fault, _, _, _, _, hrun⟩ := hstops (Sample.declaring "K") (by simp)
    _ (Disk.readText_ok.mpr ⟨"// hand written\n", by decide +kernel, rfl⟩) (by decide +kernel)
  exact ⟨fault, hrun, hdirect, hkept hrooted hdirect _ _ (by decide +kernel)⟩

/-- A directory that is missing, with double dots after it, leads to a file that the check did not
find. -/
theorem detour_overwrites_file :
    Sample.workplace.disk.Rooted ∧
    Sample.workplace.disk.at? ["W", "out", "K.cs"] = some (.file (.text "// hand written\n")) ∧
    (stateOf (writeFragments Sample.accepting ⟨1, ["W", "out", "new", ".."]⟩ .default
      [Sample.declaring "K"] Sample.workplace)).disk.at? ["W", "out", "K.cs"] =
        some (.file (.text "using System;\n\npartial class K\n\x7b\n\x7d\n")) :=
  ⟨.of_entries (by decide), by decide +kernel, by decide +kernel⟩

end PrintGen
