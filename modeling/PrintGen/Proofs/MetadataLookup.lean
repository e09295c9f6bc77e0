import PrintGen.Proofs.AttributeNames
import PrintGen.Proofs.MetadataNames
import Mathlib.Data.List.Induction

/-!
# What a text leads to when it is looked up as a metadata name

A lookup cuts a text at its separators and reads the numbers behind the ticks the way integers are
read anywhere: signs, blanks, zeros in front and the digits of other scripts are all taken. So a
text can lead to a type without being its metadata name, and a tick with something else behind it
stops the lookup with a fault. Texts whose numbers are written the way a metadata name has them are
the ones on which the lookup is exact, and it never fails on them.
-/

namespace PrintGen

namespace Text

/-- The pieces with the separators between them are the text. -/
theorem eq_of_splitOn {x : Char} {cs piece : List Char} {pieces : List (List Char)}
    (h : splitOn x cs = piece :: pieces) : cs = piece ++ pieces.flatMap (x :: ·) := by
  induction cs generalizing piece pieces with
  | nil =>
    cases h
    rfl
  | cons c cs ih =>
    obtain ⟨head, rest, hcons⟩ := List.exists_cons_of_ne_nil (splitOn_ne_nil x cs)
    have htail := ih hcons
    rw [splitOn, hcons] at h
    split at h
    · rename_i hc
      cases h
      rw [hc, htail]
      rfl
    · cases h
      rw [htail]
      rfl

theorem splitOn_inj {x : Char} {cs ds : List Char} (h : splitOn x cs = splitOn x ds) : cs = ds := by
  obtain ⟨piece, pieces, hcons⟩ := List.exists_cons_of_ne_nil (splitOn_ne_nil x cs)
  have hcs := eq_of_splitOn hcons
  rw [h] at hcons
  rw [hcs, ← eq_of_splitOn hcons]

end Text

namespace Symbols

open Syntax

/-! ## Numbers behind ticks -/

/-- What follows the first tick of a part is a positive number, written in plain digits and not too
long to be read. -/
def WellWritten (part : List Char) : Prop :=
  ∀ name digits, part = name ++ '\x60' :: digits → '\x60' ∉ name →
    ∃ n : Nat, 0 < n ∧ digits = (toString n).toList ∧ digits.length ≤ Text.maxDigits

/-- The parts of a text in which a number is looked for: what follows the last dot before the first
plus, and what follows each plus. -/
def numberedParts (text : String) : List (List Char) :=
  match Text.splitOn '+' text.toList with
  | [] => []
  | outermost :: nested => (Text.splitOn '.' outermost).getLast?.getD [] :: nested

/-- All numbers in a text are written the way a metadata name has them. -/
def Canonical (text : String) : Prop :=
  ∀ part ∈ numberedParts text, WellWritten part

theorem numberedParts_eq {text : String} {outermost : List Char} {nested : List (List Char)}
    (h : Text.splitOn '+' text.toList = outermost :: nested) :
    numberedParts text = (Text.splitOn '.' outermost).getLast?.getD [] :: nested := by
  rw [numberedParts, h]

theorem metadataSegment_positive {s : Segment} (h : s.arity ≠ 0) :
    (metadataSegment s).toList = s.name.toList ++ '\x60' :: (toString s.arity).toList := by
  rw [metadataSegment, if_neg h, String.toList_append, String.toList_append, tick_toList,
    List.append_assoc, List.singleton_append]

/-- The well-written parts are the segments of metadata names. -/
theorem wellWritten_iff {part : List Char} : WellWritten part ↔
    ∃ s : Segment, '\x60' ∉ s.name.toList ∧ (toString s.arity).length ≤ Text.maxDigits ∧
      (metadataSegment s).toList = part := by
  constructor
  · intro h
    by_cases htick : '\x60' ∈ part
    · obtain ⟨name, digits, rfl, hname⟩ := List.eq_append_cons_of_mem htick
      obtain ⟨n, hpos, rfl, hlength⟩ := h name digits rfl hname
      refine ⟨⟨String.ofList name, n⟩, ?_, ?_, ?_⟩
      · rwa [String.toList_ofList]
      · rwa [← String.length_toList]
      · rw [metadataSegment_positive (Nat.ne_of_gt hpos), String.toList_ofList]
    · have hzero : (toString 0).length ≤ Text.maxDigits := by decide
      refine ⟨⟨String.ofList part, 0⟩, ?_, hzero, String.toList_ofList⟩
      rwa [String.toList_ofList]
  · rintro ⟨s, hname, hlength, rfl⟩ name digits heq hfirst
    have hcut := Text.cutAt_append hfirst digits
    rw [← heq] at hcut
    by_cases hzero : s.arity = 0
    · rw [metadataSegment, if_pos hzero, Text.cutAt_of_not_mem hname] at hcut
      cases hcut
    · rw [metadataSegment_positive hzero, Text.cutAt_append hname] at hcut
      cases hcut
      exact ⟨s.arity, Nat.pos_of_ne_zero hzero, rfl, by rwa [String.length_toList]⟩

/-! ## From a part to a type -/

section

variable {table : Table} {c : Entity} {part : List Char}

theorem Table.memberByText_error {fault : Fault} (h : table.memberByText c part = .error fault) :
    arityOf part = .error fault := by
  rw [memberByText] at h
  cases hread : arityOf part with
  | error e =>
    rw [hread] at h
    exact congrArg Except.error (Except.error.inj h)
  | ok found =>
    rw [hread] at h
    cases h

theorem Table.memberByText_some {t : TypePath} (h : table.memberByText c part = .ok (some t)) :
    table.hasType t = true := by
  rw [memberByText] at h
  obtain ⟨⟨name, arity⟩, -, hmember⟩ := except_bind_ok.mp h
  have hfound : table.memberOfArity? c name arity = some t := Except.ok.inj hmember
  rw [memberOfArity?] at hfound
  split at hfound
  · exact (memberType?_some hfound).1
  · cases hfound

/-- A well-written part leads to the member that it is the segment of. -/
theorem WellWritten.memberByText (h : WellWritten part) {t : TypePath}
    (ht : table.memberByText c part = .ok (some t)) : ∃ s, (metadataSegment s).toList = part ∧
      t = c.member s := by
  obtain ⟨s, hname, hlength, rfl⟩ := wellWritten_iff.mp h
  rw [Table.memberByText, arityOf_metadataSegment hname hlength] at ht
  have hfound : table.memberOfArity? c s.name (Int.ofNat s.arity) = some t := Except.ok.inj ht
  rw [Table.memberOfArity?_ofNat, Table.memberType?_eq] at hfound
  exact ⟨s, rfl, (type?_some hfound).1⟩

theorem WellWritten.arityOf (h : WellWritten part) (fault : Fault) :
    Symbols.arityOf part ≠ .error fault := by
  obtain ⟨s, hname, hlength, rfl⟩ := wellWritten_iff.mp h
  rw [arityOf_metadataSegment hname hlength]
  nofun

end

/-! ## Nested types -/

section

variable {table : Table} {parts : List (List Char)}

theorem Table.nestedByName_cons (t : TypePath) (part : List Char) :
    table.nestedByName (some t) (part :: parts) =
      (table.memberByText (.ofType t) part >>= fun inner => table.nestedByName inner parts) := by
  rw [← nestedByName_singleton, ← nestedByName_append]
  rfl

theorem Table.nestedByName_error {t : Option TypePath} {fault : Fault}
    (h : table.nestedByName t parts = .error fault) :
    ∃ part ∈ parts, arityOf part = .error fault := by
  induction parts generalizing t with
  | nil =>
    rw [nestedByName_nil] at h
    cases h
  | cons part rest ih =>
    cases t with
    | none => cases h
    | some t =>
      rw [nestedByName_cons] at h
      cases hread : table.memberByText (.ofType t) part with
      | error e =>
        rw [hread] at h
        cases h
        exact ⟨part, List.mem_cons_self, memberByText_error hread⟩
      | ok inner =>
        rw [hread, except_ok_bind] at h
        obtain ⟨bad, hbad, hfault⟩ := ih h
        exact ⟨bad, List.mem_cons_of_mem _ hbad, hfault⟩

/-- Each part leads one type inwards, and a well-written one is added to the metadata name. -/
theorem Table.nestedByName_some {t u : TypePath} (ht : table.hasType t = true)
    (h : table.nestedByName (some t) parts = .ok (some u)) :
    table.hasType u = true ∧ ((∀ part ∈ parts, WellWritten part) →
      u.metadataName.toList = t.metadataName.toList ++ parts.flatMap ('+' :: ·)) := by
  induction parts generalizing t with
  | nil =>
    rw [nestedByName_nil] at h
    cases h
    exact ⟨ht, fun _ => by rw [List.flatMap_nil, List.append_nil]⟩
  | cons part rest ih =>
    rw [nestedByName_cons] at h
    obtain ⟨inner, hinner, hrest⟩ := except_bind_ok.mp h
    cases inner with
    | none =>
      rw [nestedByName] at hrest
      cases hrest
    | some inner =>
      obtain ⟨hu, hname⟩ := ih (memberByText_some hinner) hrest
      refine ⟨hu, fun hw => ?_⟩
      obtain ⟨hpart, hothers⟩ := List.forall_mem_cons.mp hw
      obtain ⟨s, rfl, rfl⟩ := hpart.memberByText hinner
      have hstep : (TypePath.nested t s).metadataName.toList =
          t.metadataName.toList ++ '+' :: (metadataSegment s).toList := by
        rw [TypePath.metadataName, String.toList_append, String.toList_append, plus_toList,
          List.append_assoc, List.singleton_append]
      calc u.metadataName.toList
          = (TypePath.nested t s).metadataName.toList ++ rest.flatMap ('+' :: ·) := hname hothers
        _ = t.metadataName.toList ++
              ('+' :: (metadataSegment s).toList ++ rest.flatMap ('+' :: ·)) := by
            rw [hstep, List.append_assoc]
        _ = t.metadataName.toList ++
              ((metadataSegment s).toList :: rest).flatMap ('+' :: ·) := by
            rw [List.flatMap_cons]

end

/-! ## Top-level types -/

theorem Table.namespaceByName?_some {table : Table} {parts : List (List Char)} {n : Namespace}
    (h : table.namespaceByName? parts = some n) :
    table.hasNamespace n = true ∧ n.names.map String.toList = parts := by
  induction parts using List.reverseRecOn generalizing n with
  | nil =>
    cases h
    exact ⟨(hasNamespace_iff _ _).mpr (.inl rfl), rfl⟩
  | append_singleton parts part ih =>
    rw [namespaceByName?, List.foldlM_append] at h
    obtain ⟨parent, hparent, hlast⟩ := Option.bind_eq_some_iff.mp h
    obtain ⟨-, hnames⟩ := ih hparent
    rw [List.foldlM_cons] at hlast
    obtain ⟨inner, hinner, hend⟩ := Option.bind_eq_some_iff.mp hlast
    cases hend
    simp only at hinner
    split at hinner
    · rename_i hhas
      cases hinner
      refine ⟨hhas, ?_⟩
      rw [Namespace.names, List.map_append, hnames, List.map_singleton, String.toList_ofList]
    · cases hinner

/-- The top-level type that the part before the first plus stands for. -/
def Table.topByText (table : Table) (outermost : List Char) : Except Fault (Option TypePath) :=
  match table.namespaceByName? (Text.splitOn '.' outermost).dropLast with
  | none => .ok none
  | some n => table.memberByText (.ofNamespace n) ((Text.splitOn '.' outermost).getLast?.getD [])

section

variable {table : Table} {outermost : List Char}

theorem Table.typeByName_eq {text : String} {nested : List (List Char)}
    (h : Text.splitOn '+' text.toList = outermost :: nested) :
    table.typeByName text =
      (table.topByText outermost >>= fun t => table.nestedByName t nested) := by
  rw [typeByName, topByText, h]
  simp only
  cases table.namespaceByName? (Text.splitOn '.' outermost).dropLast with
  | none => cases nested <;> rfl
  | some n =>
    simp only [memberByText]
    cases Symbols.arityOf ((Text.splitOn '.' outermost).getLast?.getD []) with
    | error fault => rfl
    | ok found => rfl

theorem Table.topByText_error {fault : Fault} (h : table.topByText outermost = .error fault) :
    arityOf ((Text.splitOn '.' outermost).getLast?.getD []) = .error fault := by
  rw [topByText] at h
  split at h
  · cases h
  · exact memberByText_error h

/-- What the part before the first plus leads to is a declared type, and if the part is well-written
it is the metadata name of this type. -/
theorem Separable.topByText_some (hn : Separable table) {t : TypePath}
    (h : table.topByText outermost = .ok (some t)) :
    table.hasType t = true ∧ (WellWritten ((Text.splitOn '.' outermost).getLast?.getD []) →
      t.metadataName.toList = outermost) := by
  rw [Table.topByText] at h
  split at h
  · cases h
  · rename_i n hspace
    obtain ⟨hhas, hnames⟩ := Table.namespaceByName?_some hspace
    have ht := Table.memberByText_some h
    refine ⟨ht, fun hw => Text.splitOn_inj (x := '.') ?_⟩
    obtain ⟨s, hs, rfl⟩ := hw.memberByText h
    have hdot := metadataSegment_noDot (hn.segment ht).1
    have hpieces := Text.splitOn_ne_nil '.' outermost
    rw [List.getLast?_eq_some_getLast hpieces, Option.getD_some] at hs
    calc Text.splitOn '.' (TypePath.top n s).metadataName.toList
        = n.names.map String.toList ++ [(metadataSegment s).toList] :=
          (hn.namespaces n hhas).splitOn_display hdot
      _ = (Text.splitOn '.' outermost).dropLast ++ [(Text.splitOn '.' outermost).getLast hpieces] :=
          by rw [hnames, hs]
      _ = Text.splitOn '.' outermost := List.dropLast_concat_getLast hpieces

end

/-! ## Whole texts -/

theorem Table.typeByName_error {table : Table} {text : String} {fault : Fault}
    (h : table.typeByName text = .error fault) :
    ∃ part ∈ numberedParts text, arityOf part = .error fault := by
  obtain ⟨outermost, nested, hcons⟩ :=
    List.exists_cons_of_ne_nil (Text.splitOn_ne_nil '+' text.toList)
  rw [numberedParts_eq hcons]
  rw [typeByName_eq hcons] at h
  cases htop : table.topByText outermost with
  | error e =>
    rw [htop] at h
    cases h
    exact ⟨_, List.mem_cons_self, topByText_error htop⟩
  | ok top =>
    rw [htop, except_ok_bind] at h
    obtain ⟨part, hpart, hfault⟩ := nestedByName_error h
    exact ⟨part, List.mem_cons_of_mem _ hpart, hfault⟩

theorem Canonical.typeByName {table : Table} {text : String} (h : Canonical text) :
    ∃ found, table.typeByName text = .ok found := by
  cases hlookup : table.typeByName text with
  | ok found => exact ⟨found, rfl⟩
  | error fault =>
    obtain ⟨part, hpart, hfault⟩ := Table.typeByName_error hlookup
    exact absurd hfault ((h part hpart).arityOf fault)

namespace Separable

variable {table : Table} (hn : Separable table)

include hn

theorem typeByName_some {text : String} {t : TypePath}
    (h : table.typeByName text = .ok (some t)) :
    table.hasType t = true ∧ (Canonical text → t.metadataName = text) := by
  obtain ⟨outermost, nested, hcons⟩ :=
    List.exists_cons_of_ne_nil (Text.splitOn_ne_nil '+' text.toList)
  rw [Table.typeByName_eq hcons] at h
  obtain ⟨top, htop, hnested⟩ := except_bind_ok.mp h
  cases top with
  | none =>
    rw [Table.nestedByName] at hnested
    cases hnested
  | some top =>
    obtain ⟨hhas, houtermost⟩ := hn.topByText_some htop
    obtain ⟨ht, hname⟩ := Table.nestedByName_some hhas hnested
    refine ⟨ht, fun hcanonical => String.toList_inj.mp ?_⟩
    rw [Canonical, numberedParts_eq hcons] at hcanonical
    obtain ⟨hlast, hrest⟩ := List.forall_mem_cons.mp hcanonical
    rw [hname hrest, houtermost hlast, ← Text.eq_of_splitOn hcons]

variable (hs : Stored table) {t : TypePath} (ht : table.hasType t = true)

include hs ht

/-- Metadata names are canonical, unless a number in them is too long to be read. -/
theorem canonical_metadataName (hr : t.Readable) : Canonical t.metadataName := by
  induction t with
  | top home own =>
    obtain ⟨hname, hplus⟩ := hn.segment (c := .ofNamespace home) ht
    have hparts : Text.splitOn '.' (TypePath.top home own).metadataName.toList =
        home.names.map String.toList ++ [(metadataSegment own).toList] :=
      (hn.namespaces home (hs.containers _ ht)).splitOn_display (metadataSegment_noDot hname)
    rw [Canonical, numberedParts_eq (Text.splitOn_of_not_mem (hn.top_noPlus hs ht)), hparts,
      List.getLast?_concat, Option.getD_some]
    intro part hpart
    cases List.mem_singleton.mp hpart
    exact wellWritten_iff.mpr ⟨own, hname.noTick, hr, rfl⟩
  | nested outer own ih =>
    obtain ⟨hname, hplus⟩ := hn.segment (c := .ofType outer) ht
    have houter := ih (hs.containers _ ht) hr.1
    obtain ⟨outermost, nested, hcons⟩ :=
      List.exists_cons_of_ne_nil (Text.splitOn_ne_nil '+' outer.metadataName.toList)
    have hsplit : Text.splitOn '+' (TypePath.nested outer own).metadataName.toList =
        outermost :: (nested ++ [(metadataSegment own).toList]) := by
      rw [TypePath.metadataName, String.toList_append, String.toList_append, plus_toList,
        List.append_assoc, List.singleton_append, Text.splitOn_append, hcons,
        Text.splitOn_of_not_mem (metadataSegment_noPlus hplus), List.cons_append]
    rw [Canonical, numberedParts_eq hcons] at houter
    rw [Canonical, numberedParts_eq hsplit, ← List.cons_append]
    intro part hpart
    rcases List.mem_append.mp hpart with hbefore | hlast
    · exact houter part hbefore
    · cases List.mem_singleton.mp hlast
      exact wellWritten_iff.mpr ⟨own, hname.noTick, hr.2, rfl⟩

/-- A lookup by a metadata name either comes back with its type, or is stopped by a long number. -/
theorem readable_of_typeByName {found : Option TypePath}
    (h : table.typeByName t.metadataName = .ok found) : t.Readable := by
  by_contra hlong
  obtain ⟨count, -, hfault⟩ := hn.typeByName_long hs ht hlong
  rw [hfault] at h
  cases h

end Separable

end Symbols

namespace Sample

/-! A generic class in a namespace, with a class inside it. -/

open Syntax
open Marker (node identifier)

def box : SourceTree :=
  ⟨.source 0, "box.cs",
    "namespace N \x7b class Box<T> \x7b class C \x7b \x7d \x7d \x7d".toList, false,
    node (.other "compilation_unit") 0 44 none [
      node .namespaceDeclaration 0 44 none [
        identifier 10 11 (some .name),
        node .declarationList 12 44 (some (.other "body")) [
          node (.typeDeclaration .classType) 14 42 none [
            identifier 20 23 (some .name),
            node .typeParameterList 23 26 none [
              node .typeParameter 24 25 none [identifier 24 25 (some .name)]],
            node .declarationList 27 42 (some (.other "body")) [
              node (.typeDeclaration .classType) 29 40 none [
                identifier 35 36 (some .name),
                node .declarationList 37 40 (some (.other "body")) []]]]]]]⟩

end Sample

namespace Symbols

open Syntax

/-- **A lookup by metadata name is exact on canonical texts, and on no others that lead anywhere.**
In a compilation in which no name contains a dot, a plus or a tick, and no namespace has an empty
name, a text in which all numbers are written as in a metadata name is looked up without a fault,
and what is found is the declared type with this metadata name, if there is one. For any text a
fault comes from one of its parts that is no name with a number, and a type that is found is a
declared one, which has the text as its metadata name just if the text is canonical. -/
theorem lookup_exact_iff_canonical (trees : List SourceTree) (text : String)
    (h : Separable (build trees).model.table) :
    (Canonical text → ∃ found, (build trees).model.table.typeByName text = .ok found ∧
      ∀ t, found = some t ↔
        (build trees).model.table.hasType t = true ∧ t.metadataName = text) ∧
    (∀ fault, (build trees).model.table.typeByName text = .error fault →
      ∃ part ∈ numberedParts text, arityOf part = .error fault) ∧
    ∀ t, (build trees).model.table.typeByName text = .ok (some t) →
      (build trees).model.table.hasType t = true ∧ (t.metadataName = text ↔ Canonical text) := by
  have hs : Stored (build trees).model.table := by
    rw [build_table]
    exact stored_declaredTable trees
  refine ⟨fun hcanonical => ?_, fun fault => Table.typeByName_error, fun t ht => ?_⟩
  · obtain ⟨found, hfound⟩ : ∃ found, (build trees).model.table.typeByName text = .ok found :=
      hcanonical.typeByName
    refine ⟨found, hfound, fun t => ⟨?_, ?_⟩⟩
    · rintro rfl
      obtain ⟨hhas, hname⟩ := h.typeByName_some hfound
      exact ⟨hhas, hname hcanonical⟩
    · rintro ⟨hhas, rfl⟩
      have hread := h.readable_of_typeByName hs hhas hfound
      rw [h.typeByName_metadataName hs hhas hread] at hfound
      exact (Except.ok.inj hfound).symm
  · obtain ⟨hhas, hname⟩ := h.typeByName_some ht
    refine ⟨hhas, ?_, hname⟩
    rintro rfl
    exact h.canonical_metadataName hs hhas (h.readable_of_typeByName hs hhas ht)

/-- Two texts lead to the class inside the generic one. The canonical text is its metadata name, the
one with a zero in front of the number is not. -/
theorem lookup_of_nested_type :
    Separable (build [Sample.box]).model.table ∧
    (build [Sample.box]).model.table.typeByName "N.Box\x601+C" =
      .ok (some (.nested (.top (.child .global "N") ⟨"Box", 1⟩) ⟨"C", 0⟩)) ∧
    Canonical "N.Box\x601+C" ∧ ¬Canonical "N.Box\x6001+C" := by
  have hnames : (∀ n ∈ Namespace.global :: (declaredTable [Sample.box]).namespaces, n.Plain) ∧
      ∀ t ∈ (declaredTable [Sample.box]).paths, Unseparated t.name ∧ '+' ∉ t.name.toList := by
    decide +kernel
  have hfound : ∀ text ∈ ["N.Box\x601+C", "N.Box\x6001+C"],
      ((declaredTable [Sample.box]).typeByName text).toOption =
        some (some (.nested (.top (.child .global "N") ⟨"Box", 1⟩) ⟨"C", 0⟩)) := by
    decide +kernel
  rw [← build_table] at hnames hfound
  have hseparable : Separable (build [Sample.box]).model.table := by
    refine ⟨fun n hn => hnames.1 n ?_, fun t ht => hnames.2 t ((Table.hasType_iff_mem _ t).mp ht)⟩
    rw [List.mem_cons, ← Table.hasNamespace_iff]
    exact hn
  have hok : ∀ text ∈ ["N.Box\x601+C", "N.Box\x6001+C"],
      (build [Sample.box]).model.table.typeByName text =
        .ok (some (.nested (.top (.child .global "N") ⟨"Box", 1⟩) ⟨"C", 0⟩)) := by
    intro text htext
    exact ok_of_toOption (hfound text htext)
  have hname : (TypePath.nested (.top (.child .global "N") ⟨"Box", 1⟩) ⟨"C", 0⟩).metadataName =
      "N.Box\x601+C" := by
    decide +kernel
  have hplain := (lookup_exact_iff_canonical [Sample.box] "N.Box\x601+C" hseparable).2.2 _
    (hok _ (by decide))
  have hzero := (lookup_exact_iff_canonical [Sample.box] "N.Box\x6001+C" hseparable).2.2 _
    (hok _ (by decide))
  refine ⟨hseparable, hok _ (by decide), hplain.2.mp hname, fun hcanonical => ?_⟩
  exact absurd (hname.symm.trans (hzero.2.mpr hcanonical)) (by decide)

/-- Something else than a number stops a lookup, and numbers in other spellings lead to types that
have other metadata names. -/
theorem lookup_misreads_numbers :
    (∃ fault, (build [Sample.box]).model.table.typeByName "N.Box\x60x" = .error fault) ∧
    (∃ t, (build [Sample.box]).model.table.typeByName "N.Box\x6001" = .ok (some t) ∧
      t.metadataName = "N.Box\x601") ∧
    ∃ t, (build [Sample.box]).model.table.typeByName "N.Box\x601+C\x600" = .ok (some t) ∧
      t.metadataName = "N.Box\x601+C" := by
  have hfound : ((declaredTable [Sample.box]).typeByName "N.Box\x60x").toOption = none ∧
      ((declaredTable [Sample.box]).typeByName "N.Box\x6001").toOption =
        some (some (.top (.child .global "N") ⟨"Box", 1⟩)) ∧
      ((declaredTable [Sample.box]).typeByName "N.Box\x601+C\x600").toOption =
        some (some (.nested (.top (.child .global "N") ⟨"Box", 1⟩) ⟨"C", 0⟩)) := by
    decide +kernel
  rw [← build_table] at hfound
  obtain ⟨hstop, hzero, hnested⟩ := hfound
  refine ⟨?_, ⟨_, ok_of_toOption hzero, by decide +kernel⟩,
    ⟨_, ok_of_toOption hnested, by decide +kernel⟩⟩
  cases hlookup : (build [Sample.box]).model.table.typeByName "N.Box\x60x" with
  | ok found =>
    rw [hlookup] at hstop
    cases hstop
  | error fault => exact ⟨fault, rfl⟩

end Symbols

end PrintGen
