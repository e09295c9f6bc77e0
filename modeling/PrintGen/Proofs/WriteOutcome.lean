import PrintGen.Proofs.OutputDirectory
import PrintGen.Proofs.WrittenAgain

/-!
# What a run comes to

A run that has passed its check opens the output directory and puts one text after the other in
place. It stops at the first text that cannot be stored or that the check of texts refuses; until
then every file that it had to write has its text, and no other file has changed or come into
being. What is left of the refused text, or of the temporary file that it was put into, is nothing.
-/

namespace PrintGen

open Syntax (Parsed SourceTree)
open Text (CodeText)

theorem run_bind_congr {ε σ α β : Type} {x : EStateM ε σ α} {s t : σ} (h : x s = x t)
    (f : α → EStateM ε σ β) : (x >>= f) s = (x >>= f) t := by
  simp only [bind, EStateM.bind, h]

/-! ## Texts that are refused -/

/-- The tree that a text to be written is checked with. -/
def generatedTree (parsed : Parsed) (text : String) : SourceTree :=
  ⟨.source 0, "<generated>", text.toList, parsed.hasError, parsed.root⟩

/-- Why the check refuses a text: it does not follow the grammar, declares no type or has no using
directive. -/
def rejection? (parsed : Parsed) (text : String) : Option Fault :=
  if parsed.hasError then
    match (generatedTree parsed text).errorSnippet with
    | .ok snippet =>
      some (.syntaxErrors "<generated>" (generatedTree parsed text).firstErrorLine? snippet)
    | .error fault => some fault
  else if !typeWords.any (mentions text) then some .noTypeDefinition
  else if !mentions text "using " then some .noUsing
  else none

/-- The faults of texts that the check refuses. -/
def Fault.isRejection : Fault → Bool
  | .syntaxErrors _ _ _ => true
  | .noTypeDefinition => true
  | .noUsing => true
  | _ => false

/-- Why a fragment cannot be written: its text cannot be stored, or the check refuses it. -/
def refusal? (parse : Fragment → Parsed) (validate : Bool) (f : Fragment) : Option Fault :=
  match f.text.string? with
  | none => some .unwritableText
  | some s => if validate then rejection? (parse f) s else none

theorem checkText_passes {parsed : Parsed} {s : String} (h : rejection? parsed s = none)
    (t : Trace) : checkText parsed s t = .ok () t := by
  rw [rejection?] at h
  split at h
  · cases hsnippet : (generatedTree parsed s).errorSnippet with
    | ok snippet =>
      rw [hsnippet] at h
      cases h
    | error fault =>
      rw [hsnippet] at h
      cases h
  · rename_i herror
    split at h
    · cases h
    · rename_i htype
      split at h
      · cases h
      · rename_i husing
        simp only [checkText, SourceTree.accept, herror, htype, husing]
        rfl

theorem checkText_refuses {parsed : Parsed} {s : String} {fault : Fault}
    (h : rejection? parsed s = some fault) (t : Trace) :
    checkText parsed s t = .error fault t := by
  rw [rejection?] at h
  split at h
  · rename_i herror
    simp only [checkText, SourceTree.accept, herror, if_true]
    cases hsnippet : (generatedTree parsed s).errorSnippet with
    | ok snippet =>
      rw [hsnippet] at h
      cases h
      rw [generatedTree, herror] at hsnippet
      rw [hsnippet, generatedTree, herror]
      rfl
    | error other =>
      rw [hsnippet] at h
      cases h
      rw [generatedTree, herror] at hsnippet
      rw [hsnippet]
      rfl
  · rename_i herror
    simp only [checkText, SourceTree.accept, herror]
    split at h
    · rename_i htype
      cases h
      simp only [htype]
      rfl
    · rename_i htype
      split at h
      · rename_i husing
        cases h
        simp only [htype, husing]
        rfl
      · cases h

/-- What stops a storable text is the check, with one of its own faults as long as the place of the
first error can be read. -/
theorem isRejection_of_refusal? {parse : Fragment → Parsed} {validate : Bool} {f : Fragment}
    {s : String} {fault : Fault} (h : refusal? parse validate f = some fault)
    (hs : f.text = .ofString s)
    (hread : ∃ snippet, (generatedTree (parse f) s).errorSnippet = .ok snippet) :
    fault.isRejection = true := by
  obtain ⟨snippet, hsnippet⟩ := hread
  rw [refusal?, CodeText.string?_eq_some.mpr hs] at h
  dsimp only at h
  split at h
  · rw [rejection?, hsnippet] at h
    split at h
    · cases h
      rfl
    · split at h
      · cases h
        rfl
      · split at h
        · cases h
          rfl
        · cases h
  · cases h

/-! ## One fragment -/

/-- Whether a fragment has to be written: a target that exists and may not be overwritten is left
out. -/
def isDue (d : Disk) (mode : OutputMode) (directory : DiskPath) (f : Fragment) : Bool :=
  !(mode = .errorIfExists && d.hasPath (fragmentPath directory f.key))

theorem mem_leftOut {d : Disk} {mode : OutputMode} {directory : DiskPath}
    {fragments : List Fragment} {f : Fragment} (hf : f ∈ fragments) :
    fragmentPath directory f.key ∈ leftOut d mode directory fragments ↔
      isDue d mode directory f = false := by
  rw [leftOut, isDue]
  by_cases hmode : mode = .errorIfExists
  · simp only [hmode, if_true, List.mem_filter, decide_true, Bool.true_and, Bool.not_eq_false',
      and_iff_right_iff_imp]
    exact fun _ => List.mem_map_of_mem hf
  · simp [hmode]

/-- The text of a fragment as it is stored. -/
def Fragment.stored (f : Fragment) : String :=
  f.text.string?.getD ""

/-- The disk with these fragments in a directory. -/
def Disk.holding (d : Disk) (place : List String) (fragments : List Fragment) : Disk :=
  fragments.foldl (fun d f => d.put (place ++ [f.key ++ ".cs"]) (.file (.text f.stored))) d

section

variable {parse : Fragment → Parsed} {directory : DiskPath} {validate : Bool}
  {current : List DiskPath} {f : Fragment} {d made : Disk} {place : List String} {t : Trace}

/-- A fragment whose target is left out changes nothing on any disk. -/
theorem writeInto_leftOut (parse : Fragment → Parsed) (validate : Bool)
    (h : fragmentPath directory f.key ∈ current) (t : Trace) : ∃ t', ∀ d,
      writeInto parse directory validate current f ⟨d, t⟩ =
        .ok (fragmentPath directory f.key) ⟨d, t'⟩ := by
  refine ⟨t ++ [⟨.debug, .writing, (fragmentPath directory f.key).text ++ " is up to date"⟩],
    fun d => ?_⟩
  rw [writeInto, writeFragment, if_pos (List.contains_iff_mem.mpr h)]
  rfl

theorem writeInto_due (h : fragmentPath directory f.key ∉ current) :
    writeInto parse directory validate current f = (do
      writeChecked (fragmentPath directory f.key) f.text
        fun s => if validate then checkText (parse f) s else pure ()
      Filing.ofTraced (report .debug .writing ("Wrote " ++ (fragmentPath directory f.key).text))
      return fragmentPath directory f.key) := by
  rw [writeInto, writeFragment, if_neg (by rw [List.contains_iff_mem]; exact h)]

theorem parent_fragmentPath (hkey : '/' ∉ f.key.toList) (directory : DiskPath) :
    (fragmentPath directory f.key).parent = directory := by
  rw [fragmentPath_eq hkey, DiskPath.parent, DiskPath.inside, List.dropLast_concat]

theorem placeOf_target (hkey : '/' ∉ f.key.toList) (hplace : d.placeOf directory = .ok place)
    (hat : d.at? place = some .directory) :
    d.placeOf (fragmentPath directory f.key) = .ok (place ++ [f.key ++ ".cs"]) := by
  rw [fragmentPath_eq hkey]
  exact Disk.placeOf_inside.mpr
    ⟨place, hplace, hat, (if_neg (fileName_ne f.key ".." (by decide))).symm⟩

/-- A text is written as if the directories on the way to it had been there. -/
theorem writeChecked_opened {target : DiskPath}
    (hmade : d.makeDirectories target.parent = (made, none))
    (hopen : made.isDirectory target.parent = true) (text : CodeText)
    (check : String → Traced Unit) (t : Trace) :
    writeChecked target text check ⟨d, t⟩ = writeChecked target text check ⟨made, t⟩ := by
  rw [writeChecked_eq, writeDirect, run_bind_of_ok (Filing.run_change_ok hmade),
    run_bind_of_ok (Filing.run_change_ok (Disk.makeDirectories_existing hopen))]

theorem writeInto_opened (parse : Fragment → Parsed) (validate : Bool)
    (hkey : '/' ∉ f.key.toList) (hdue : fragmentPath directory f.key ∉ current)
    (hmade : d.makeDirectories directory = (made, none)) (hopen : made.isDirectory directory = true)
    (t : Trace) : writeInto parse directory validate current f ⟨d, t⟩ =
      writeInto parse directory validate current f ⟨made, t⟩ := by
  rw [← parent_fragmentPath hkey directory] at hmade hopen
  rw [writeInto_due hdue]
  exact run_bind_congr (writeChecked_opened hmade hopen _ _ t) _

/-- What an opened directory makes of a text: it is refused, or it is put at its target. -/
theorem writeChecked_inside {target : DiskPath} {last : List String}
    (hopen : d.isDirectory target.parent = true) (htarget : d.placeOf target = .ok last)
    (hfree : d.at? last ≠ some .directory) (text : CodeText) (check : String → Traced Unit)
    (t : Trace) :
    (text.string? = none →
      writeChecked target text check ⟨d, t⟩ = .error .unwritableText ⟨d, t⟩) ∧
    ∀ s, text.string? = some s →
      (∀ fault t', check s t = .error fault t' →
        writeChecked target text check ⟨d, t⟩ = .error fault ⟨d, t'⟩) ∧
      ∀ t', check s t = .ok () t' →
        writeChecked target text check ⟨d, t⟩ = .ok () ⟨d.put last (.file (.text s)), t'⟩ := by
  obtain ⟨place, hplace, _⟩ := Disk.isDirectory_iff.mp hopen
  rw [writeChecked_eq, writeDirect,
    run_bind_of_ok (Filing.run_change_ok (Disk.makeDirectories_existing hopen)), run_get_bind]
  dsimp only
  rw [hplace]
  refine ⟨fun hs => ?_, fun s hs => ⟨fun fault t' hc => ?_, fun t' hc => ?_⟩⟩
  · rw [hs]
    rfl
  · rw [hs]
    exact run_bind_of_error (Filing.run_ofTraced_fault hc d) _
  · rw [hs]
    refine (run_bind_of_ok (Filing.run_ofTraced_ok hc d) _).trans ?_
    exact Filing.run_change_ok (Disk.store_ok.mpr ⟨last, htarget, hfree, rfl⟩)

/-- The output directory leads to a place where it stands, and no target in it is a directory. -/
structure Disk.IsOpen (d : Disk) (directory : DiskPath) (place : List String)
    (fragments : List Fragment) : Prop where
  leads : d.placeOf directory = .ok place
  stands : d.at? place = some .directory
  free : ∀ f ∈ fragments, d.at? (place ++ [f.key ++ ".cs"]) ≠ some .directory

namespace Disk.IsOpen

variable {fragments : List Fragment}

theorem isDirectory (h : d.IsOpen directory place fragments) : d.isDirectory directory = true :=
  isDirectory_iff.mpr ⟨place, h.leads, h.stands⟩

theorem parent (h : d.IsOpen directory place fragments) (hkey : '/' ∉ f.key.toList) :
    d.isDirectory (fragmentPath directory f.key).parent = true := by
  rw [parent_fragmentPath hkey]
  exact h.isDirectory

/-- Putting a file beside the others keeps the directory open. -/
theorem put (h : d.IsOpen directory place fragments) {key : String}
    (hfree : d.at? (place ++ [key ++ ".cs"]) ≠ some .directory) (content : Content) :
    (d.put (place ++ [key ++ ".cs"]) (.file content)).IsOpen directory place fragments := by
  have hkeeps := KeepsDirectories.put hfree (.file content)
  refine ⟨hkeeps.placeOf h.leads, hkeeps.directories place h.stands, fun f hf => ?_⟩
  rw [at?_put d (by simp)]
  split
  · simp
  · exact h.free f hf

theorem subset {others : List Fragment} (h : d.IsOpen directory place fragments)
    (hsub : others ⊆ fragments) : d.IsOpen directory place others :=
  ⟨h.leads, h.stands, fun f hf => h.free f (hsub hf)⟩

end Disk.IsOpen

section

variable {fragments : List Fragment} (ho : d.IsOpen directory place fragments)
  (hf : f ∈ fragments) (hkey : '/' ∉ f.key.toList) (hdue : fragmentPath directory f.key ∉ current)
include ho hf hkey hdue

theorem writeInto_passes (h : refusal? parse validate f = none) (t : Trace) :
    ∃ t', writeInto parse directory validate current f ⟨d, t⟩ =
      .ok (fragmentPath directory f.key)
        ⟨d.put (place ++ [f.key ++ ".cs"]) (.file (.text f.stored)), t'⟩ := by
  obtain ⟨_, hstores⟩ :=
    writeChecked_inside (ho.parent hkey) (placeOf_target hkey ho.leads ho.stands) (ho.free f hf)
      f.text (fun s => if validate then checkText (parse f) s else pure ()) t
  rw [refusal?] at h
  cases hs : f.text.string? with
  | none =>
    rw [hs] at h
    cases h
  | some s =>
    rw [hs] at h
    have hcheck : (if validate then checkText (parse f) s else pure ()) t = .ok () t := by
      cases validate with
      | true => exact checkText_passes h t
      | false => rfl
    have hstored : f.stored = s := by rw [Fragment.stored, hs, Option.getD_some]
    rw [writeInto_due hdue, hstored]
    exact ⟨_, run_bind_of_ok ((hstores s hs).2 t hcheck) _⟩

theorem writeInto_refuses {fault : Fault} (h : refusal? parse validate f = some fault) (t : Trace) :
    writeInto parse directory validate current f ⟨d, t⟩ = .error fault ⟨d, t⟩ := by
  obtain ⟨hunwritable, hstores⟩ :=
    writeChecked_inside (ho.parent hkey) (placeOf_target hkey ho.leads ho.stands) (ho.free f hf)
      f.text (fun s => if validate then checkText (parse f) s else pure ()) t
  rw [refusal?] at h
  rw [writeInto_due hdue]
  refine run_bind_of_error ?_ _
  cases hs : f.text.string? with
  | none =>
    rw [hs] at h
    cases h
    exact hunwritable hs
  | some s =>
    rw [hs] at h
    dsimp only at h
    cases validate with
    | true => exact (hstores s hs).1 fault t (checkText_refuses h t)
    | false => cases h

end

end

/-! ## All fragments -/

section

variable {parse : Fragment → Parsed} {directory : DiskPath} {validate : Bool}
  {current : List DiskPath} {fragments : List Fragment} {d made : Disk} {place : List String}

/-- The fragments whose targets are not left out. -/
def written (directory : DiskPath) (current : List DiskPath) (fragments : List Fragment) :
    List Fragment :=
  fragments.filter fun f => fragmentPath directory f.key ∉ current

/-- **In an open directory every text that has to be written is put in place**, one after the
other, if none of them is refused. -/
theorem run_stores (hkeys : ∀ f ∈ fragments, '/' ∉ f.key.toList)
    (ho : d.IsOpen directory place fragments)
    (hpass : ∀ f ∈ fragments, fragmentPath directory f.key ∉ current →
      refusal? parse validate f = none) (t : Trace) :
    ∃ t', fragments.mapM (writeInto parse directory validate current) ⟨d, t⟩ =
      .ok (fragments.map fun f => fragmentPath directory f.key)
        ⟨d.holding place (written directory current fragments), t'⟩ := by
  induction fragments generalizing d t with
  | nil => exact ⟨t, rfl⟩
  | cons f rest ih =>
    obtain ⟨hkey, hrestKeys⟩ := List.forall_mem_cons.mp hkeys
    obtain ⟨hf, hrestPass⟩ := List.forall_mem_cons.mp hpass
    have hrest := ho.subset (List.subset_cons_self f rest)
    rw [List.mapM_cons]
    by_cases hdue : fragmentPath directory f.key ∈ current
    · obtain ⟨t₁, hone⟩ := writeInto_leftOut parse validate hdue t
      obtain ⟨t₂, hmore⟩ := ih hrestKeys hrest hrestPass t₁
      refine ⟨t₂, ?_⟩
      rw [run_bind_of_ok (hone d), run_bind_of_ok hmore, written, written,
        List.filter_cons_of_neg (by simpa using hdue)]
      rfl
    · have hmem : f ∈ f :: rest := List.mem_cons_self
      obtain ⟨t₁, hone⟩ := writeInto_passes ho hmem hkey hdue (hf hdue) t
      obtain ⟨t₂, hmore⟩ := ih hrestKeys (hrest.put (ho.free f hmem) _) hrestPass t₁
      refine ⟨t₂, ?_⟩
      rw [run_bind_of_ok hone, run_bind_of_ok hmore, written, written,
        List.filter_cons_of_pos (by simpa using hdue)]
      rfl

/-- The directory is opened by the first fragment that has to be written. -/
theorem run_opened (hkeys : ∀ f ∈ fragments, '/' ∉ f.key.toList)
    (hmade : d.makeDirectories directory = (made, none)) (hopen : made.isDirectory directory = true)
    (hdue : ∃ f ∈ fragments, fragmentPath directory f.key ∉ current) (t : Trace) :
    fragments.mapM (writeInto parse directory validate current) ⟨d, t⟩ =
      fragments.mapM (writeInto parse directory validate current) ⟨made, t⟩ := by
  induction fragments generalizing t with
  | nil =>
    obtain ⟨f, hf, _⟩ := hdue
    cases hf
  | cons f rest ih =>
    obtain ⟨hkey, hrest⟩ := List.forall_mem_cons.mp hkeys
    rw [List.mapM_cons]
    by_cases hin : fragmentPath directory f.key ∈ current
    · obtain ⟨t', hskip⟩ := writeInto_leftOut parse validate hin t
      obtain ⟨g, hg, hgdue⟩ := hdue
      have hlater : g ∈ rest := by
        rcases List.mem_cons.mp hg with rfl | hg
        · exact absurd hin hgdue
        · exact hg
      rw [run_bind_of_ok (hskip d), run_bind_of_ok (hskip made)]
      exact run_bind_congr (ih hrest ⟨g, hlater, hgdue⟩ t') _
    · exact run_bind_congr (writeInto_opened parse validate hkey hin hmade hopen t) _

theorem Disk.at?_holding {q : List String} (h : ∀ f ∈ fragments, q ≠ place ++ [f.key ++ ".cs"]) :
    (d.holding place fragments).at? q = d.at? q := by
  induction fragments generalizing d with
  | nil => rfl
  | cons f rest ih =>
    obtain ⟨hf, hrest⟩ := List.forall_mem_cons.mp h
    refine (ih hrest).trans ?_
    rw [Disk.at?_put d (by simp), if_neg hf]

theorem Disk.IsOpen.holding {others : List Fragment} (h : d.IsOpen directory place fragments)
    (hsub : others ⊆ fragments) : (d.holding place others).IsOpen directory place fragments := by
  induction others generalizing d with
  | nil => exact h
  | cons f rest ih =>
    obtain ⟨hf, hrest⟩ := List.cons_subset.mp hsub
    exact ih (h.put (h.free f hf) _) hrest

/-- Only the targets change. -/
theorem Disk.IsOpen.holding_files {others : List Fragment} (h : d.IsOpen directory place fragments)
    (hsub : others ⊆ fragments) (hkeys : ∀ f ∈ fragments, '/' ∉ f.key.toList) {q : List String}
    (hq : ∀ f ∈ others,
      (d.holding place others).placeOf (fragmentPath directory f.key) ≠ .ok q) :
    (d.holding place others).at? q = d.at? q := by
  have ho := h.holding hsub
  refine Disk.at?_holding fun f hf he => hq f hf ?_
  rw [he]
  exact placeOf_target (hkeys f (hsub hf)) ho.leads ho.stands

theorem Disk.IsOpen.holding_directories {others : List Fragment}
    (h : d.IsOpen directory place fragments) (hsub : others ⊆ fragments) {q : List String}
    (hq : d.at? q = some .directory) : (d.holding place others).at? q = some .directory := by
  rw [Disk.at?_holding, hq]
  rintro f hf rfl
  exact h.free f (hsub hf) hq

/-- **A run stops at the first text that is refused**, with the texts before it in place. -/
theorem run_stops {earlier later : List Fragment} {f : Fragment} {fault : Fault}
    (hkeys : ∀ g ∈ earlier ++ f :: later, '/' ∉ g.key.toList)
    (ho : d.IsOpen directory place (earlier ++ f :: later))
    (hpass : ∀ g ∈ earlier, fragmentPath directory g.key ∉ current →
      refusal? parse validate g = none)
    (hdue : fragmentPath directory f.key ∉ current) (h : refusal? parse validate f = some fault)
    (t : Trace) :
    ∃ t', (earlier ++ f :: later).mapM (writeInto parse directory validate current) ⟨d, t⟩ =
      .error fault ⟨d.holding place (written directory current earlier), t'⟩ := by
  have hsub : earlier ⊆ earlier ++ f :: later := List.subset_append_left _ _
  obtain ⟨t₁, hrun⟩ := run_stores (fun g hg => hkeys g (hsub hg)) (ho.subset hsub) hpass t
  have hopen := ho.holding (List.Subset.trans (List.filter_subset_self _) hsub :
    written directory current earlier ⊆ _)
  have hf : f ∈ earlier ++ f :: later := by simp
  refine ⟨t₁, ?_⟩
  rw [List.mapM_append, run_bind_of_ok hrun, List.mapM_cons]
  exact run_bind_of_error (run_bind_of_error
    (writeInto_refuses hopen hf (hkeys f hf) hdue h t₁) _) _

end

/-! ## From the disk as it was -/

namespace Disk

/-- As soon as the missing directories are made, the output directory is there and no target is a
directory. -/
structure Accepts (d : Disk) (directory : DiskPath) (fragments : List Fragment) : Prop where
  stands : (d.makeDirectories directory).1.isDirectory directory = true
  free : ∀ f ∈ fragments,
    (d.makeDirectories directory).1.isDirectory (fragmentPath directory f.key) = false

/-- Two disks have the same files. -/
def SameFiles (d d' : Disk) : Prop :=
  ∀ place content, d'.at? place = some (.file content) ↔ d.at? place = some (.file content)

/-- What is left by a run that had to write some fragments: their texts, all other files as they
were, and all directories. -/
structure Written (d after : Disk) (directory : DiskPath) (due : List Fragment) : Prop where
  texts : ∀ f ∈ due, ∃ s, f.text = .ofString s ∧
    after.find? (fragmentPath directory f.key) = some (.file (.text s))
  files : ∀ place, (∀ f ∈ due, after.placeOf (fragmentPath directory f.key) ≠ .ok place) →
    ∀ content, after.at? place = some (.file content) ↔ d.at? place = some (.file content)
  directories : ∀ place, d.at? place = some .directory → after.at? place = some .directory

section

variable {d : Disk} {directory : DiskPath} {fragments : List Fragment}

/-- An output directory that is missing or there, without a detour, takes fragments whose targets
are no directories. -/
theorem Accepts.of_direct (hkeys : ∀ f ∈ fragments, '/' ∉ f.key.toList) (hr : d.Rooted)
    (hcurrent : d.at? d.current = some .directory) (hdirect : d.Direct directory)
    (h : d.isDirectory directory = true ∨ d.lacks directory = true)
    (hfree : ∀ f ∈ fragments, d.isDirectory (fragmentPath directory f.key) = false) :
    d.Accepts directory fragments := by
  obtain ⟨place, hreached⟩ := makeDirectories_direct hr hcurrent hdirect h
  refine ⟨isDirectory_iff.mpr ⟨place, hreached.leads, hreached.stands⟩, fun f hf => ?_⟩
  have htarget := placeOf_target (hkeys f hf) hreached.leads hreached.stands
  by_contra hdirectory
  obtain ⟨last, hlast, hat⟩ := isDirectory_iff.mp (Bool.not_eq_false _ ▸ hdirectory)
  rw [htarget] at hlast
  cases hlast
  -- nothing new stands inside the directory
  have hsame : (d.makeDirectories directory).1.at? (place ++ [f.key ++ ".cs"]) =
      d.at? (place ++ [f.key ++ ".cs"]) := by
    by_contra hne
    have hlength := (hreached.onTheWay _ hne).length_le
    rw [List.length_append, List.length_singleton] at hlength
    omega
  rw [hsame] at hat
  have hinside : d.Direct (fragmentPath directory f.key) := by
    rw [fragmentPath_eq (hkeys f hf)]
    exact direct_inside.mpr ⟨hdirect, fun he => absurd he (fileName_ne f.key ".." (by decide))⟩
  rcases (makeDirectories_extends d directory).placeOf_direct hr hinside htarget with hold | hnone
  · have hold := isDirectory_iff.mpr ⟨_, hold, hat⟩
    rw [hfree f hf] at hold
    cases hold
  · rw [hat] at hnone
    cases hnone

theorem Accepts.isOpen (h : d.Accepts directory fragments)
    (hkeys : ∀ f ∈ fragments, '/' ∉ f.key.toList) :
    ∃ place, (d.makeDirectories directory).1.IsOpen directory place fragments := by
  obtain ⟨place, hleads, hstands⟩ := isDirectory_iff.mp h.stands
  refine ⟨place, hleads, hstands, fun f hf hat => ?_⟩
  have hdirectory := isDirectory_iff.mpr ⟨_, placeOf_target (hkeys f hf) hleads hstands, hat⟩
  rw [h.free f hf] at hdirectory
  cases hdirectory

end

end Disk

section

variable {parse : Fragment → Parsed} {directory : DiskPath} {output : OutputSettings}
  {fragments : List Fragment} {w : Workspace} {place : List String}

/-- The fragments of a run that have to be written. -/
theorem written_leftOut {d : Disk} {mode : OutputMode} {others : List Fragment}
    (hsub : others ⊆ fragments) :
    written directory (leftOut d mode directory fragments) others =
      others.filter (isDue d mode directory) := by
  refine List.filter_congr fun f hf => ?_
  rw [Bool.eq_iff_iff, decide_eq_true_iff, mem_leftOut (hsub hf), Bool.not_eq_false]

theorem not_leftOut {d : Disk} {mode : OutputMode} {f : Fragment} (hf : f ∈ fragments) :
    fragmentPath directory f.key ∉ leftOut d mode directory fragments ↔
      isDue d mode directory f = true := by
  rw [mem_leftOut hf, Bool.not_eq_false]

/-- In a run that refuses nothing, the directory is made if there is something to write. -/
theorem run_settles (hkeys : ∀ f ∈ fragments, '/' ∉ f.key.toList)
    (hdistinct : (fragments.map Fragment.key).Nodup)
    (hclear : output.mode = .errorIfExists → ∀ f ∈ fragments, conflict? w.disk directory f = none)
    (ho : (w.disk.makeDirectories directory).1.IsOpen directory place fragments)
    (hpass : ∀ f ∈ fragments, isDue w.disk output.mode directory f = true →
      refusal? parse output.validate f = none) :
    ∃ after t, writeFragments parse directory output fragments w =
        .ok (fragments.map fun f => fragmentPath directory f.key) ⟨after, t⟩ ∧
      w.disk.Written after directory
        (fragments.filter (isDue w.disk output.mode directory)) ∧
      after.SameFiles ((w.disk.makeDirectories directory).1.holding place
        (fragments.filter (isDue w.disk output.mode directory))) := by
  have hgains := Disk.makeDirectories_gains w.disk directory
  rw [writeFragments_clear hclear]
  by_cases hdue : ∃ f ∈ fragments, isDue w.disk output.mode directory f = true
  · obtain ⟨f, hf, hfdue⟩ := hdue
    have hsub : fragments.filter (isDue w.disk output.mode directory) ⊆ fragments :=
      List.filter_subset_self _
    obtain ⟨t, hrun⟩ := run_stores hkeys ho
      (fun g hg hnot => hpass g hg ((not_leftOut hg).mp hnot)) w.trace
    rw [← run_opened hkeys (Disk.makeDirectories_settled ho.isDirectory) ho.isDirectory
      ⟨f, hf, (not_leftOut hf).mpr hfdue⟩, written_leftOut (List.Subset.refl _)] at hrun
    refine ⟨_, t, hrun, ⟨fun g hg => ?_, fun q hq content => ?_, fun q hq => ?_⟩,
      fun _ _ => Iff.rfl⟩
    · obtain ⟨hg, hgdue⟩ := List.mem_filter.mp hg
      exact (run_writes hkeys hdistinct hrun).2 g hg ((not_leftOut hg).mpr hgdue)
    · rw [ho.holding_files hsub hkeys hq]
      exact hgains.file_iff
    · exact ho.holding_directories hsub (hgains.toExtends.entries q _ hq)
  · have hnone : ∀ f ∈ fragments, isDue w.disk output.mode directory f = false := by
      intro f hf
      by_contra hfdue
      exact hdue ⟨f, hf, Bool.not_eq_false _ ▸ hfdue⟩
    have hempty : fragments.filter (isDue w.disk output.mode directory) = [] :=
      List.filter_eq_nil_iff.mpr fun f hf => by rw [hnone f hf]; simp
    obtain ⟨t, hrun⟩ : ∃ t, fragments.mapM (writeInto parse directory output.validate
        (leftOut w.disk output.mode directory fragments)) w =
          .ok (fragments.map fun f => fragmentPath directory f.key) ⟨w.disk, t⟩ :=
      run_of_leftOut fun f hf => (mem_leftOut hf).mpr (hnone f hf)
    rw [hempty]
    exact ⟨w.disk, t, hrun, ⟨by simp, fun _ _ _ => Iff.rfl, fun _ hq => hq⟩,
      fun _ _ => hgains.file_iff⟩

/-- A target that a run does not come to is as it was. -/
theorem target_kept {others : List Fragment} {f : Fragment} (hkey : '/' ∉ f.key.toList)
    (hf : f ∈ fragments) (hsub : others ⊆ fragments) (hnew : f.key ∉ others.map Fragment.key)
    (ho : (w.disk.makeDirectories directory).1.IsOpen directory place fragments) :
    ∃ target, ((w.disk.makeDirectories directory).1.holding place others).placeOf
        (fragmentPath directory f.key) = .ok target ∧
      ((w.disk.makeDirectories directory).1.holding place others).at? target =
        w.disk.at? target := by
  have hopen := ho.holding hsub
  refine ⟨_, placeOf_target hkey hopen.leads hopen.stands, ?_⟩
  rw [Disk.at?_holding]
  · rcases (Disk.makeDirectories_gains w.disk directory).places (place ++ [f.key ++ ".cs"]) with
      hsame | ⟨_, hmade⟩
    · exact hsame
    · exact absurd hmade (ho.free f hf)
  · intro g hg he
    have hname := List.singleton_inj.mp (List.append_cancel_left he)
    exact hnew (fileName_inj hname ▸ List.mem_map_of_mem hg)

/-- **What a run comes to.** A run that has found no conflict, in a directory that takes its
fragments, returns one file for each fragment and puts the texts of those that have to be written in
place, if none of them is refused. Otherwise it ends with the fault of the first that is refused.
The files are then those that the fragments before it would have left, and its own target and all
later ones are as they were. Every output directory that is missing or there takes the fragments, if
no target is a directory and no detour leads there. -/
theorem write_run_outcome (parse : Fragment → Parsed) (directory : DiskPath)
    (output : OutputSettings) (fragments : List Fragment) (w : Workspace)
    (hkeys : ∀ f ∈ fragments, '/' ∉ f.key.toList)
    (hdistinct : (fragments.map Fragment.key).Nodup)
    (hclear : output.mode = .errorIfExists →
      ∀ f ∈ fragments, conflict? w.disk directory f = none) :
    (w.disk.Rooted → w.disk.at? w.disk.current = some .directory → w.disk.Direct directory →
      w.disk.isDirectory directory = true ∨ w.disk.lacks directory = true →
      (∀ f ∈ fragments, w.disk.isDirectory (fragmentPath directory f.key) = false) →
      w.disk.Accepts directory fragments) ∧
    (w.disk.Accepts directory fragments →
      ((∀ f ∈ fragments, isDue w.disk output.mode directory f = true →
          refusal? parse output.validate f = none) →
        ∃ after t, writeFragments parse directory output fragments w =
            .ok (fragments.map fun f => fragmentPath directory f.key) ⟨after, t⟩ ∧
          w.disk.Written after directory
            (fragments.filter (isDue w.disk output.mode directory))) ∧
      ∀ earlier f later fault, fragments = earlier ++ f :: later →
        (∀ g ∈ earlier, isDue w.disk output.mode directory g = true →
          refusal? parse output.validate g = none) →
        isDue w.disk output.mode directory f = true →
        refusal? parse output.validate f = some fault →
        ∃ before after t t',
          writeFragments parse directory output earlier w =
            .ok (earlier.map fun g => fragmentPath directory g.key) ⟨before, t⟩ ∧
          w.disk.Written before directory
            (earlier.filter (isDue w.disk output.mode directory)) ∧
          writeFragments parse directory output fragments w = .error fault ⟨after, t'⟩ ∧
          before.SameFiles after ∧
          (∀ g ∈ f :: later, ∃ place, after.placeOf (fragmentPath directory g.key) = .ok place ∧
            after.at? place = w.disk.at? place) ∧
          ∀ s snippet, f.text = .ofString s →
            (generatedTree (parse f) s).errorSnippet = .ok snippet → fault.isRejection = true) := by
  refine ⟨.of_direct hkeys, fun haccepts => ?_⟩
  obtain ⟨place, ho⟩ := haccepts.isOpen hkeys
  constructor
  · intro hpass
    obtain ⟨after, t, hrun, hwritten, _⟩ := run_settles hkeys hdistinct hclear ho hpass
    exact ⟨after, t, hrun, hwritten⟩
  · rintro earlier f later fault rfl hpass hdue hrefused
    have hsub : earlier ⊆ earlier ++ f :: later := List.subset_append_left _ _
    have hf : f ∈ earlier ++ f :: later := by simp
    rw [List.map_append] at hdistinct
    obtain ⟨before, t, hrun, hwritten, hfiles⟩ := run_settles (fun g hg => hkeys g (hsub hg))
      hdistinct.of_append_left (fun hmode g hg => hclear hmode g (hsub hg)) (ho.subset hsub) hpass
    obtain ⟨t', hstop⟩ := run_stops hkeys ho
      (fun g hg hnot => hpass g hg ((not_leftOut (hsub hg)).mp hnot))
      ((not_leftOut hf).mpr hdue) hrefused w.trace
    rw [← run_opened hkeys (Disk.makeDirectories_settled ho.isDirectory) ho.isDirectory
      ⟨f, hf, (not_leftOut hf).mpr hdue⟩, written_leftOut hsub] at hstop
    refine ⟨before, _, t, t', hrun, hwritten, ?_, hfiles, fun g hg => ?_,
      fun s snippet hs hsnippet => isRejection_of_refusal? hrefused hs ⟨snippet, hsnippet⟩⟩
    · rw [writeFragments_clear hclear]
      exact hstop
    · have hmem : g ∈ earlier ++ f :: later := List.mem_append_right _ hg
      refine target_kept (hkeys g hmem) hmem (List.Subset.trans (List.filter_subset_self _) hsub)
        (fun hin => ?_) ho
      obtain ⟨e, he, hkey⟩ := List.mem_map.mp hin
      exact (List.nodup_append.mp hdistinct).2.2 _
        (List.mem_map_of_mem (List.mem_filter.mp he).1) _ (List.mem_map_of_mem hg) hkey

end

namespace Sample

/-- A fragment that declares no type. -/
def typeless : Fragment :=
  ⟨"I", .ofString "using System;\n"⟩

/-- A directory with the name of a file that could be written. -/
def occupied : Workspace :=
  ⟨⟨[(["W"], .directory), (["W", "out"], .directory), (["W", "out", "K.cs"], .directory)], ["W"]⟩,
    []⟩

end Sample

theorem refused_fragment_stops_run : ∃ before after t t',
    writeFragments Sample.accepting ⟨1, ["W", "out"]⟩ ⟨.force, true⟩ [Sample.declaring "J"]
      Sample.workplace = .ok [⟨1, ["W", "out", "J.cs"]⟩] ⟨before, t⟩ ∧
    before.find? ⟨1, ["W", "out", "J.cs"]⟩ =
      some (.file (.text "using System;\n\npartial class J\n\x7b\n\x7d\n")) ∧
    writeFragments Sample.accepting ⟨1, ["W", "out"]⟩ ⟨.force, true⟩
      [Sample.declaring "J", Sample.typeless, Sample.declaring "K"] Sample.workplace =
        .error .noTypeDefinition ⟨after, t'⟩ ∧
    before.SameFiles after ∧
    ∃ place, after.placeOf ⟨1, ["W", "out", "K.cs"]⟩ = .ok place ∧
      after.at? place = Sample.workplace.disk.at? place := by
  obtain ⟨haccepts, houtcome⟩ := write_run_outcome Sample.accepting ⟨1, ["W", "out"]⟩
    ⟨.force, true⟩ [Sample.declaring "J", Sample.typeless, Sample.declaring "K"] Sample.workplace
    (by decide) (by decide) (by decide)
  obtain ⟨before, after, t, t', hbefore, hwritten, hstop, hfiles, hkept, _⟩ :=
    (houtcome (haccepts (.of_entries (by decide)) (by decide) (by decide) (by decide +kernel)
      (by decide +kernel))).2 [Sample.declaring "J"] Sample.typeless [Sample.declaring "K"]
      .noTypeDefinition rfl (by decide +kernel) (by decide) rfl
  refine ⟨before, after, t, t', hbefore, ?_, hstop, hfiles, hkept (Sample.declaring "K") (by simp)⟩
  obtain ⟨s, hs, hfind⟩ := hwritten.texts (Sample.declaring "J") (by decide)
  rw [← CodeText.ofString_inj hs] at hfind
  exact hfind

/-- A directory that is missing, with double dots after it, leads to a target that is a directory,
which stops the run. -/
theorem detour_meets_directory :
    Sample.occupied.disk.Rooted ∧
    Sample.occupied.disk.lacks ⟨1, ["W", "out", "new", ".."]⟩ = true ∧
    Sample.occupied.disk.isDirectory
      (fragmentPath ⟨1, ["W", "out", "new", ".."]⟩ (Sample.declaring "K").key) = false ∧
    conflict? Sample.occupied.disk ⟨1, ["W", "out", "new", ".."]⟩ (Sample.declaring "K") = none ∧
    refusal? Sample.accepting true (Sample.declaring "K") = none ∧
    (writeFragments Sample.accepting ⟨1, ["W", "out", "new", ".."]⟩ .default
      [Sample.declaring "K"]).run' Sample.occupied = none :=
  ⟨.of_entries (by decide), by decide +kernel, by decide +kernel, by decide +kernel,
    by decide +kernel, by decide +kernel⟩

end PrintGen
