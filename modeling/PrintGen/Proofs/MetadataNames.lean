import PrintGen.Proofs.Names
import PrintGen.Proofs.StoppedPass
import Mathlib.Data.List.TakeWhile

/-!
# Metadata names lead to their types

A metadata name is put together from the names on the way to a type: dots after the names of
namespaces, a plus after the types around it, and the number of type parameters after a tick. Names
that contain none of these separators come out again when the text is cut at them, and so following
the metadata name of a declared type leads to that type. The names of types may even be empty.
-/

namespace PrintGen

namespace Text

/-! ## Cutting a text at a separator -/

theorem splitOn_ne_nil (x : Char) (cs : List Char) : splitOn x cs ≠ [] := by
  cases cs with
  | nil => simp [splitOn]
  | cons c cs =>
    rw [splitOn]
    split
    · simp
    · split <;> simp

/-- A separator divides the pieces before it from those after it. -/
theorem splitOn_append (x : Char) (cs ds : List Char) :
    splitOn x (cs ++ x :: ds) = splitOn x cs ++ splitOn x ds := by
  induction cs with
  | nil => simp [splitOn]
  | cons c cs ih =>
    obtain ⟨piece, pieces, hcons⟩ := List.exists_cons_of_ne_nil (splitOn_ne_nil x cs)
    rw [List.cons_append, splitOn, splitOn, ih, hcons]
    split <;> rfl

theorem splitOn_of_not_mem {x : Char} {cs : List Char} (h : x ∉ cs) : splitOn x cs = [cs] := by
  induction cs with
  | nil => rfl
  | cons c cs ih =>
    obtain ⟨hne, hrest⟩ := not_or.mp (mt List.mem_cons.mpr h)
    rw [splitOn, if_neg (Ne.symm hne), ih hrest]

theorem cutAt_append {x : Char} {cs : List Char} (h : x ∉ cs) (ds : List Char) :
    cutAt x (cs ++ x :: ds) = (cs, some ds) := by
  induction cs with
  | nil => simp [cutAt]
  | cons c cs ih =>
    obtain ⟨hne, hrest⟩ := not_or.mp (mt List.mem_cons.mpr h)
    rw [List.cons_append, cutAt, if_neg (Ne.symm hne), ih hrest]

theorem cutAt_of_not_mem {x : Char} {cs : List Char} (h : x ∉ cs) : cutAt x cs = (cs, none) := by
  induction cs with
  | nil => rfl
  | cons c cs ih =>
    obtain ⟨hne, hrest⟩ := not_or.mp (mt List.mem_cons.mpr h)
    rw [cutAt, if_neg (Ne.symm hne), ih hrest]

/-! ## Reading a number that was written -/

section

variable {c : Char} (h : c.isDigit = true)

include h

theorem digit_range : '0'.toNat ≤ c.toNat ∧ c.toNat ≤ '9'.toNat := by
  simp only [Char.isDigit, Bool.and_eq_true, decide_eq_true_eq] at h
  exact h

theorem digitValue?_of_isDigit : digitValue? c = some (c.toNat - '0'.toNat) := by
  obtain ⟨hlow, hhigh⟩ := digit_range h
  have hin : (0x30 ≤ c.toNat && c.toNat < 0x30 + 10) = true := by
    rw [Bool.and_eq_true, decide_eq_true_eq, decide_eq_true_eq]
    exact ⟨hlow, Nat.lt_succ_of_le hhigh⟩
  have hfirst : digitZeros.find? (fun first => first ≤ c.toNat && c.toNat < first + 10) =
      some 0x30 :=
    List.find?_cons_of_pos (p := fun first => first ≤ c.toNat && c.toNat < first + 10) hin
  rw [digitValue?, hfirst]
  rfl

theorem isNumeralChar_of_isDigit : isNumeralChar c = true := by
  rw [isNumeralChar, digitValue?_of_isDigit h]
  exact Bool.or_true _

theorem isBlank_of_isDigit : isBlank c = false := by
  obtain ⟨hlow, hhigh⟩ := digit_range h
  have hlow' : 48 ≤ c.toNat := hlow
  have hhigh' : c.toNat ≤ 57 := hhigh
  simp only [isBlank, Bool.or_eq_false_iff, Bool.and_eq_false_iff, decide_eq_false_iff_not]
  omega

end

theorem digitsFrom?_of_digits {cs : List Char} (h : ∀ c ∈ cs, c.isDigit = true) (acc : Nat) :
    digitsFrom? acc cs = some (Nat.ofDigitChars 10 cs acc) := by
  induction cs generalizing acc with
  | nil => rfl
  | cons c cs ih =>
    obtain ⟨hc, hrest⟩ := List.forall_mem_cons.mp h
    rw [digitsFrom?.eq_def, Nat.ofDigitChars_cons]
    simp only [digitValue?_of_isDigit hc]
    exact ih hrest _

theorem natural?_of_digits {cs : List Char} (hne : cs ≠ []) (h : ∀ c ∈ cs, c.isDigit = true) :
    natural? cs = some (Nat.ofDigitChars 10 cs 0) := by
  obtain ⟨c, rest, rfl⟩ := List.exists_cons_of_ne_nil hne
  obtain ⟨hc, hrest⟩ := List.forall_mem_cons.mp h
  rw [natural?, digitValue?_of_isDigit hc, Option.bind_some, digitsFrom?_of_digits hrest,
    Nat.ofDigitChars_cons, Nat.mul_zero, Nat.zero_add]

/-- Digits alone are read as the number that they stand for, unless they are too many. -/
theorem unsigned_of_digits {cs : List Char} (hne : cs ≠ []) (h : ∀ c ∈ cs, c.isDigit = true) :
    unsigned cs = if maxDigits < cs.length then .error (.tooLong cs.length)
      else .ok (Nat.ofDigitChars 10 cs 0) := by
  have hnumeral : ∀ c ∈ cs, isNumeralChar c = true := fun c hc => isNumeralChar_of_isDigit (h c hc)
  have hcount : digitCount cs = cs.length := by
    rw [digitCount, List.countP_eq_length]
    intro c hc
    rw [digitValue?_of_isDigit (h c hc)]
    rfl
  have hrun : cs.takeWhile isNumeralChar = cs := List.takeWhile_eq_self_iff.mpr hnumeral
  have hrest : cs.dropWhile isNumeralChar = [] := List.dropWhile_eq_nil_iff.mpr hnumeral
  rw [unsigned]
  simp only [hrun, hrest, natural?_of_digits hne h, hcount, List.all_nil, if_true]

/-- A written number is read back, unless it has too many digits. -/
theorem integer_toString (n : Nat) :
    integer (toString n) = if maxDigits < (toString n).length then
      .error (.tooLong (toString n).length) else .ok (Int.ofNat n) := by
  have hlist : (toString n).toList = Nat.toDigits 10 n := by
    rw [Nat.toString_eq_ofList_toDigits, String.toList_ofList]
  have hdigits : ∀ c ∈ Nat.toDigits 10 n, c.isDigit = true := fun c hc =>
    Nat.isDigit_of_mem_toDigits (by omega) (by omega) hc
  have hread := unsigned_of_digits Nat.toDigits_ne_nil hdigits
  have hlength : (toString n).length = (Nat.toDigits 10 n).length := by
    rw [← String.length_toList, hlist]
  rw [Nat.ofDigitChars_ten_toDigits] at hread
  -- A number begins with a digit, so there is no blank and no sign in front of it.
  obtain ⟨c, rest, hcons⟩ := List.exists_cons_of_ne_nil (Nat.toDigits_ne_nil (n := n) (b := 10))
  have hc : c.isDigit = true := hdigits c (by simp [hcons])
  have hplain : integer (toString n) = (unsigned (Nat.toDigits 10 n)).map Int.ofNat := by
    rw [integer, hlist, hcons, List.dropWhile_cons_of_neg (by rw [isBlank_of_isDigit hc]; simp)]
    split
    · rename_i heq
      cases heq
      cases hc
    · rename_i heq
      cases heq
      cases hc
    · rfl
  rw [hplain, hread, hlength]
  split <;> rfl

end Text

namespace Symbols

open Syntax (Segment)

/-! ## Segments -/

section

variable {s : Segment} (h : '\x60' ∉ s.name.toList)

include h

theorem arityOf_metadataSegment (hl : (toString s.arity).length ≤ Text.maxDigits) :
    arityOf (metadataSegment s).toList = .ok (s.name, Int.ofNat s.arity) := by
  rw [metadataSegment]
  split
  · rename_i hzero
    rw [arityOf, Text.cutAt_of_not_mem h, hzero]
    exact congrArg (fun name => Except.ok (name, 0)) String.ofList_toList
  · rw [arityOf, String.toList_append, String.toList_append, tick_toList, List.append_assoc,
      List.singleton_append, Text.cutAt_append h]
    simp only [String.ofList_toList, Text.integer_toString, if_neg (Nat.not_lt.mpr hl)]

theorem arityOf_long (hl : Text.maxDigits < (toString s.arity).length) :
    arityOf (metadataSegment s).toList = .error (.longInteger (toString s.arity).length) := by
  have hzero : s.arity ≠ 0 := by
    intro hz
    rw [hz] at hl
    exact absurd hl (by decide)
  rw [metadataSegment, if_neg hzero, arityOf, String.toList_append, String.toList_append,
    tick_toList, List.append_assoc, List.singleton_append, Text.cutAt_append h]
  simp only [String.ofList_toList, Text.integer_toString, if_pos hl]

end

theorem metadataSegment_noPlus {s : Segment} (h : '+' ∉ s.name.toList) :
    '+' ∉ (metadataSegment s).toList := by
  rw [metadataSegment]
  split
  · exact h
  · simp only [String.toList_append, List.mem_append, not_or]
    exact ⟨⟨h, by decide⟩, not_mem_digits (by decide)⟩

theorem plus_toList : "+".toList = ['+'] := by
  decide

/-! ## Namespaces -/

/-- The names that lead to a namespace, the outermost first. -/
def Namespace.names : Namespace → List String
  | .global => []
  | .child parent name => parent.names ++ [name]

theorem Namespace.Plain.display_eq_empty {n : Namespace} (h : n.Plain) :
    n.display = "" ↔ n = .global := by
  rw [display_eq_empty_iff, h.trimmed]

theorem Namespace.Plain.noPlus {n : Namespace} (h : n.Plain) : '+' ∉ n.display.toList := by
  induction n with
  | global => exact List.not_mem_nil
  | child parent name ih =>
    rw [display]
    split
    · exact h.2.noPlus
    · simp only [String.toList_append, List.mem_append, not_or]
      exact ⟨⟨ih h.1, by decide⟩, h.2.noPlus⟩

/-- What a namespace puts in front of a last piece, cut at the dots. -/
theorem Namespace.Plain.splitOn_display {n : Namespace} (h : n.Plain) {last : String}
    (hl : '.' ∉ last.toList) :
    Text.splitOn '.' (if n.display = "" then last else n.display ++ "." ++ last).toList =
      n.names.map String.toList ++ [last.toList] := by
  induction n generalizing last with
  | global => exact Text.splitOn_of_not_mem hl
  | child parent name ih =>
    have hshown : (child parent name).display ≠ "" := fun he => by
      cases h.display_eq_empty.mp he
    have hparent := ih h.1 h.2.noDot
    rw [if_neg hshown, String.toList_append, String.toList_append, dot_toList, List.append_assoc,
      List.singleton_append, Text.splitOn_append, Text.splitOn_of_not_mem hl, names,
      List.map_append, List.map_singleton, ← hparent]
    rfl

theorem Stored.namespaceByName? {table : Table} (h : Stored table) {n : Namespace}
    (hn : table.hasNamespace n = true) :
    table.namespaceByName? (n.names.map String.toList) = some n := by
  induction n with
  | global => rfl
  | child parent name ih =>
    have hparent := ih (h.parents parent name hn)
    rw [Table.namespaceByName?] at hparent ⊢
    rw [Namespace.names, List.map_append, List.foldlM_append, hparent]
    simp [String.ofList_toList, hn]

/-! ## Types -/

theorem Table.memberOfArity?_ofNat (table : Table) (c : Entity) (name : String) (n : Nat) :
    table.memberOfArity? c name (Int.ofNat n) = table.memberType? c ⟨name, n⟩ :=
  if_pos (Int.natCast_nonneg n)

/-- The member of a container that a part of a metadata name stands for. -/
def Table.memberByText (table : Table) (c : Entity) (part : List Char) :
    Except Fault (Option TypePath) := do
  let (name, arity) ← arityOf part
  return table.memberOfArity? c name arity

theorem Table.nestedByName_nil (table : Table) (t : Option TypePath) :
    table.nestedByName t [] = .ok t := by
  cases t <;> rfl

theorem Table.nestedByName_singleton (table : Table) (t : TypePath) (part : List Char) :
    table.nestedByName (some t) [part] = table.memberByText (.ofType t) part := by
  rw [nestedByName, memberByText]
  cases arityOf part with
  | error fault => rfl
  | ok found => exact table.nestedByName_nil _

theorem Table.nestedByName_append (table : Table) (t : Option TypePath)
    (parts more : List (List Char)) :
    table.nestedByName t (parts ++ more) =
      (table.nestedByName t parts >>= fun inner => table.nestedByName inner more) := by
  induction parts generalizing t with
  | nil =>
    rw [nestedByName_nil]
    rfl
  | cons part rest ih =>
    cases t with
    | none => cases more <;> rfl
    | some t =>
      rw [List.cons_append, nestedByName, nestedByName]
      cases arityOf part with
      | error fault => rfl
      | ok found => exact ih _

/-- A plus leads on from the type before it. -/
theorem Table.typeByName_nested (table : Table) (outer : String) {part : String}
    (h : '+' ∉ part.toList) :
    table.typeByName (outer ++ "+" ++ part) =
      (table.typeByName outer >>= fun t => table.nestedByName t [part.toList]) := by
  have hsplit : Text.splitOn '+' (outer ++ "+" ++ part).toList =
      Text.splitOn '+' outer.toList ++ [part.toList] := by
    rw [String.toList_append, String.toList_append, plus_toList, List.append_assoc,
      List.singleton_append, Text.splitOn_append, Text.splitOn_of_not_mem h]
  rw [typeByName, typeByName, hsplit]
  obtain ⟨outermost, nested, hcons⟩ :=
    List.exists_cons_of_ne_nil (Text.splitOn_ne_nil '+' outer.toList)
  simp only [hcons, List.cons_append]
  cases table.namespaceByName? (Text.splitOn '.' outermost).dropLast with
  | none => rfl
  | some n =>
    simp only
    cases arityOf ((Text.splitOn '.' outermost).getLast?.getD []) with
    | error fault => rfl
    | ok found => exact table.nestedByName_append _ _ _

/-- The numbers of type parameters on the way to a type can all be read back. -/
def TypePath.Readable : TypePath → Prop
  | .top _ own => (toString own.arity).length ≤ Text.maxDigits
  | .nested outer own => outer.Readable ∧ (toString own.arity).length ≤ Text.maxDigits

/-- The names in a table contain no separators, and those of namespaces are not empty. -/
structure Separable (table : Table) : Prop where
  namespaces : ∀ n, table.hasNamespace n = true → n.Plain
  types : ∀ t, table.hasType t = true → Unseparated t.name ∧ '+' ∉ t.name.toList

namespace Separable

section

variable {table : Table} (hn : Separable table) {c : Entity} {s : Segment}
  (ht : table.hasType (c.member s) = true)

include hn ht

theorem segment : Unseparated s.name ∧ '+' ∉ s.name.toList := by
  have h := hn.types _ ht
  rwa [TypePath.name, Entity.member_own] at h

/-- The last part of a metadata name leads from the container to the type. -/
theorem memberByText (hl : (toString s.arity).length ≤ Text.maxDigits) :
    table.memberByText c (metadataSegment s).toList = .ok (some (c.member s)) := by
  rw [Table.memberByText, arityOf_metadataSegment (hn.segment ht).1.noTick hl, except_ok_bind]
  simp only [Table.memberOfArity?_ofNat]
  rw [Table.memberType?_eq, Table.type?, if_pos ht]
  rfl

theorem memberByText_long (hl : Text.maxDigits < (toString s.arity).length) :
    table.memberByText c (metadataSegment s).toList =
      .error (.longInteger (toString s.arity).length) := by
  rw [Table.memberByText, arityOf_long (hn.segment ht).1.noTick hl]
  rfl

end

variable {table : Table} (hn : Separable table) (hs : Stored table)

include hn hs

/-- The metadata name of a top-level type is one piece. -/
theorem top_noPlus {n : Namespace} {own : Segment} (ht : table.hasType (.top n own) = true) :
    '+' ∉ (TypePath.top n own).metadataName.toList := by
  have hplus := metadataSegment_noPlus (hn.segment (c := .ofNamespace n) ht).2
  rw [TypePath.metadataName]
  split
  · exact hplus
  · simp only [String.toList_append, List.mem_append, not_or]
    exact ⟨⟨(hn.namespaces n (hs.containers _ ht)).noPlus, by decide⟩, hplus⟩

theorem typeByName_top {n : Namespace} {own : Segment}
    (ht : table.hasType (.top n own) = true) :
    table.typeByName (TypePath.top n own).metadataName =
      table.memberByText (.ofNamespace n) (metadataSegment own).toList := by
  have hhome : table.hasNamespace n = true := hs.containers _ ht
  have hplain := hn.namespaces n hhome
  have hdot := metadataSegment_noDot (hn.segment (c := .ofNamespace n) ht).1
  have hparts : Text.splitOn '.' (TypePath.top n own).metadataName.toList =
      n.names.map String.toList ++ [(metadataSegment own).toList] := hplain.splitOn_display hdot
  rw [Table.typeByName, Text.splitOn_of_not_mem (hn.top_noPlus hs ht)]
  simp only [hparts, List.dropLast_concat, List.getLast?_concat, Option.getD_some,
    hs.namespaceByName? hhome, Table.nestedByName_nil]
  rfl

variable {t : TypePath} (ht : table.hasType t = true)

include ht

/-- **Following the metadata name of a declared type leads to the type**, as long as all numbers on
the way can be read. -/
theorem typeByName_metadataName (hr : t.Readable) :
    table.typeByName t.metadataName = .ok (some t) := by
  induction t with
  | top home own =>
    rw [hn.typeByName_top hs ht]
    exact hn.memberByText (c := .ofNamespace home) ht hr
  | nested outer own ih =>
    have hplus := metadataSegment_noPlus (hn.segment (c := .ofType outer) ht).2
    rw [TypePath.metadataName, table.typeByName_nested _ hplus, ih (hs.containers _ ht) hr.1,
      except_ok_bind, Table.nestedByName_singleton]
    exact hn.memberByText (c := .ofType outer) ht hr.2

/-- A number with too many digits is not passed over: the lookup stops at it. -/
theorem typeByName_long (hr : ¬t.Readable) : ∃ count, Text.maxDigits < count ∧
    table.typeByName t.metadataName = .error (.longInteger count) := by
  induction t with
  | top home own =>
    have hl : Text.maxDigits < (toString own.arity).length := Nat.lt_of_not_le hr
    refine ⟨_, hl, ?_⟩
    rw [hn.typeByName_top hs ht]
    exact hn.memberByText_long (c := .ofNamespace home) ht hl
  | nested outer own ih =>
    have houter : table.hasType outer = true := hs.containers _ ht
    have hplus := metadataSegment_noPlus (hn.segment (c := .ofType outer) ht).2
    rw [TypePath.metadataName, table.typeByName_nested _ hplus]
    by_cases hread : outer.Readable
    · have hl : Text.maxDigits < (toString own.arity).length :=
        Nat.lt_of_not_le fun hle => hr ⟨hread, hle⟩
      refine ⟨_, hl, ?_⟩
      rw [hn.typeByName_metadataName hs houter hread, except_ok_bind,
        Table.nestedByName_singleton]
      exact hn.memberByText_long (c := .ofType outer) ht hl
    · obtain ⟨count, hcount, hstop⟩ := ih houter hread
      exact ⟨count, hcount, by rw [hstop]; rfl⟩

/-- Declared types with one metadata name are one type: the last plus, and in a top-level type the
last dot, tell where the own segment begins. -/
theorem metadataName_inj {u : TypePath} (hu : table.hasType u = true)
    (h : t.metadataName = u.metadataName) : t = u := by
  induction t generalizing u with
  | top home own =>
    cases u with
    | top home' own' =>
      have hhomes := hn.namespaces home (hs.containers _ ht)
      have hhomes' := hn.namespaces home' (hs.containers _ hu)
      obtain ⟨hhome, hown⟩ :=
        (TypePath.metadataName_eq_iff (hn.types _ ht).1 (hn.types _ hu).1 rfl rfl).mp h
      exact TypePath.eq_of_top rfl rfl (Namespace.display_inj hhomes hhomes' hhome) hown
    | nested outer' own' =>
      have hplus := hn.top_noPlus hs ht
      rw [h] at hplus
      exact absurd (mem_joined plus_toList _ _) hplus
  | nested outer own ih =>
    cases u with
    | top home' own' =>
      have hplus := hn.top_noPlus hs hu
      rw [← h] at hplus
      exact absurd (mem_joined plus_toList _ _) hplus
    | nested outer' own' =>
      obtain ⟨hname, hplus⟩ := hn.segment (c := .ofType outer) ht
      obtain ⟨hname', hplus'⟩ := hn.segment (c := .ofType outer') hu
      obtain ⟨houter, hown⟩ := joined_unique plus_toList (metadataSegment_noPlus hplus)
        (metadataSegment_noPlus hplus') h
      rw [ih (hs.containers _ ht) (hs.containers _ hu) houter,
        metadataSegment_inj hname hname' hown]

end Separable

end Symbols

namespace Sample

/-! Nested, generic and attribute classes in a file with an alias that is called `global`. -/

open Syntax
open Marker (node identifier token)

def qualified : SourceTree :=
  ⟨.source 0, "qualified.cs", "using global = M; namespace N.K \x7b ".toList ++
    "class A<T> \x7b class B : Attribute \x7b ".toList ++
    "[global::N.K.A<T>.B] int x; \x7d ".toList ++
    "[global::N.K.C] int y; \x7d ".toList ++
    "class C : Attribute \x7b \x7d ".toList ++
    "class CAttribute : Attribute \x7b \x7d \x7d".toList, false,
    node (.other "compilation_unit") 0 182 none [
      node .usingDirective 0 17 none [
        identifier 6 12 (some .name), token .equalsToken 13 14, identifier 15 16 none],
      node .namespaceDeclaration 18 182 none [
        node (.name .qualified) 28 31 (some .name) [
          identifier 28 29 (some .qualifier), identifier 30 31 (some .name)],
        node .declarationList 32 182 (some (.other "body")) [
          node (.typeDeclaration .classType) 34 123 none [
            identifier 40 41 (some .name),
            node .typeParameterList 41 44 none [
              node .typeParameter 42 43 none [identifier 42 43 (some .name)]],
            node .declarationList 45 123 (some (.other "body")) [
              node (.typeDeclaration .classType) 47 98 none [
                identifier 53 54 (some .name),
                node .baseList 55 66 none [identifier 57 66 none],
                node .declarationList 67 98 (some (.other "body")) [
                  node .fieldDeclaration 69 96 none [
                    node .attributeList 69 89 none [
                      node .attributeUse 70 88 none [
                        node (.name .qualified) 70 88 (some .name) [
                          node (.name .qualified) 70 86 (some .qualifier) [
                            node (.name .qualified) 70 81 (some .qualifier) [
                              node (.name .aliasQualified) 70 79 (some .qualifier) [
                                identifier 70 76 (some .aliasName),
                                identifier 78 79 (some .name)],
                              identifier 80 81 (some .name)],
                            node (.name .generic) 82 86 (some .name) [
                              identifier 82 83 none,
                              node .typeArgumentList 83 86 none [identifier 84 85 none]]],
                          identifier 87 88 (some .name)]]],
                    node .variableDeclaration 90 95 none [
                      node (.other "predefined_type") 90 93 (some .type) [],
                      node .variableDeclarator 94 95 none [identifier 94 95 (some .name)]]]]],
              node .fieldDeclaration 99 121 none [
                node .attributeList 99 114 none [
                  node .attributeUse 100 113 none [
                    node (.name .qualified) 100 113 (some .name) [
                      node (.name .qualified) 100 111 (some .qualifier) [
                        node (.name .aliasQualified) 100 109 (some .qualifier) [
                          identifier 100 106 (some .aliasName),
                          identifier 108 109 (some .name)],
                        identifier 110 111 (some .name)],
                      identifier 112 113 (some .name)]]],
                node .variableDeclaration 115 120 none [
                  node (.other "predefined_type") 115 118 (some .type) [],
                  node .variableDeclarator 119 120 none [identifier 119 120 (some .name)]]]]],
          node (.typeDeclaration .classType) 124 147 none [
            identifier 130 131 (some .name),
            node .baseList 132 143 none [identifier 134 143 none],
            node .declarationList 144 147 (some (.other "body")) []],
          node (.typeDeclaration .classType) 148 180 none [
            identifier 154 164 (some .name),
            node .baseList 165 176 none [identifier 167 176 none],
            node .declarationList 177 180 (some (.other "body")) []]]]]⟩

end Sample

namespace Symbols

open Syntax

/-- **Metadata names identify types.** In a compilation in which no name contains a dot, a plus or a
tick, and no namespace has an empty name, the metadata name of every declared type leads to this
type, at any depth and with any number of type parameters. Only a number that is too long to be read
stops the lookup, and then it does not lead to another type. In any case two declared types with the
same metadata name are the same type. -/
theorem metadataNames_identify_types (trees : List SourceTree)
    (h : Separable (build trees).model.table) :
    (∀ t, (build trees).model.table.hasType t = true →
      (t.Readable → (build trees).model.table.typeByName t.metadataName = .ok (some t)) ∧
      (¬t.Readable → ∃ count, Text.maxDigits < count ∧
        (build trees).model.table.typeByName t.metadataName = .error (.longInteger count))) ∧
    ∀ t u, (build trees).model.table.hasType t = true →
      (build trees).model.table.hasType u = true → t.metadataName = u.metadataName → t = u := by
  have hs : Stored (build trees).model.table := by
    rw [build_table]
    exact stored_declaredTable trees
  refine ⟨fun t ht => ⟨h.typeByName_metadataName hs ht, h.typeByName_long hs ht⟩, ?_⟩
  intro t u ht hu heq
  exact h.metadataName_inj hs ht hu heq

theorem metadataName_of_sample :
    (TypePath.nested (.top (.child (.child .global "N") "K") ⟨"A", 1⟩) ⟨"B", 0⟩).metadataName =
      "N.K.A\x601+B" ∧
    (build [Sample.qualified]).model.table.typeByName "N.K.A\x601+B" =
      .ok (some (.nested (.top (.child (.child .global "N") "K") ⟨"A", 1⟩) ⟨"B", 0⟩)) := by
  have hnames : (∀ n ∈ Namespace.global :: (declaredTable [Sample.qualified]).namespaces, n.Plain) ∧
      ∀ t ∈ (declaredTable [Sample.qualified]).paths,
        Unseparated t.name ∧ '+' ∉ t.name.toList := by
    decide +kernel
  have htype : (declaredTable [Sample.qualified]).hasType
      (.nested (.top (.child (.child .global "N") "K") ⟨"A", 1⟩) ⟨"B", 0⟩) = true := by
    decide +kernel
  rw [← build_table] at hnames htype
  have hseparable : Separable (build [Sample.qualified]).model.table := by
    refine ⟨fun n hn => hnames.1 n ?_, fun t ht => hnames.2 t ((Table.hasType_iff_mem _ t).mp ht)⟩
    rw [List.mem_cons, ← Table.hasNamespace_iff]
    exact hn
  have hname : (TypePath.nested (.top (.child (.child .global "N") "K") ⟨"A", 1⟩)
      ⟨"B", 0⟩).metadataName = "N.K.A\x601+B" := by
    decide +kernel
  have hread : (toString 1).length ≤ Text.maxDigits ∧ (toString 0).length ≤ Text.maxDigits := by
    decide
  have hspec := ((metadataNames_identify_types [Sample.qualified] hseparable).1 _ htype).1 hread
  rw [hname] at hspec
  exact ⟨hname, hspec⟩

end Symbols

end PrintGen
