import PrintGen.Render
import Mathlib.Data.List.Basic

/-!
# The lines of a rendered fragment

A fragment is put together from texts that contain the ends of its lines. As long as what is put in
ends no line itself, the text consists of whole lines: those of the type, further in by a margin if
there is a namespace around it, and a few lines before and after them.
-/

namespace PrintGen

namespace Text

/-! ## Whole lines -/

/-- A text that does not end a line. -/
def Unbroken (line : CodeText) : Prop :=
  ∀ p ∈ line, isLineEnd p = false

instance (line : CodeText) : Decidable (Unbroken line) :=
  inferInstanceAs (Decidable (∀ p ∈ line, isLineEnd p = false))

theorem unbroken_append {line more : CodeText} :
    Unbroken (line ++ more) ↔ Unbroken line ∧ Unbroken more :=
  List.forall_mem_append

/-- Lines with a line feed after each of them. -/
def unlines (ls : List CodeText) : CodeText :=
  ls.flatMap fun line => line ++ [.char '\n']

theorem unlines_cons (line : CodeText) (ls : List CodeText) :
    unlines (line :: ls) = line ++ .char '\n' :: unlines ls := by
  rw [unlines, List.flatMap_cons, List.append_assoc]
  rfl

theorem unlines_append (ls more : List CodeText) :
    unlines (ls ++ more) = unlines ls ++ unlines more :=
  List.flatMap_append

theorem linesFrom_unbroken {line : CodeText} (h : Unbroken line) (before rest : CodeText) :
    linesFrom before false (line ++ .char '\n' :: rest) =
      (before.reverse ++ line) :: linesFrom [] false rest := by
  induction line generalizing before with
  | nil =>
    rw [List.append_nil]
    rfl
  | cons p line ih =>
    obtain ⟨hp, hline⟩ := List.forall_mem_cons.mp h
    rw [List.cons_append, linesFrom, Bool.false_and, if_neg Bool.false_ne_true, hp,
      if_neg Bool.false_ne_true, ih hline, List.reverse_cons, List.append_assoc]
    rfl

/-- Whole lines are read back. -/
theorem lines_unlines {ls : List CodeText} (h : ∀ line ∈ ls, Unbroken line) :
    lines (unlines ls) = ls := by
  induction ls with
  | nil => rfl
  | cons line ls ih =>
    obtain ⟨hline, hls⟩ := List.forall_mem_cons.mp h
    rw [lines, unlines_cons, linesFrom_unbroken hline, List.reverse_nil, List.nil_append]
    exact congrArg (line :: ·) (ih hls)

theorem joinLines_cons (line : CodeText) (ls : List CodeText) :
    joinLines (line :: ls) ++ [.char '\n'] = unlines (line :: ls) := by
  induction ls generalizing line with
  | nil =>
    rw [joinLines, List.intercalate_singleton]
    exact (List.append_nil _).symm
  | cons next ls ih =>
    rw [joinLines, List.intercalate_cons_cons, ← joinLines, List.append_assoc, ih,
      List.append_assoc, unlines_cons line]
    rfl

/-! ## Margins -/

/-- A line further in, unless it is empty. -/
def indented (line : CodeText) : CodeText :=
  if line.isEmpty then line else margin ++ line

theorem Unbroken.indented {line : CodeText} (h : Unbroken line) : Unbroken (indented line) := by
  rw [Text.indented]
  split
  · exact h
  · exact unbroken_append.mpr ⟨by decide, h⟩

/-- Indenting a text of whole lines indents each of them. -/
theorem indent_unlines {text first : CodeText} {rest : List CodeText}
    (h : text ++ [.char '\n'] = unlines (first :: rest)) (hfirst : first ≠ [])
    (hlines : ∀ line ∈ first :: rest, Unbroken line) :
    indent text ++ [.char '\n'] = unlines ((first :: rest).map indented) := by
  have hread : lines (text ++ [.char '\n']) = first :: rest := by
    rw [h]
    exact lines_unlines hlines
  have hmargin : indented first = margin ++ first := by
    rw [indented, if_neg (by rwa [List.isEmpty_iff])]
  rw [indent, hread, List.map_cons, hmargin]
  exact joinLines_cons _ _

end Text

namespace Render

open Text
open Text.CodeText (ofString)

/-! ## Types with methods -/

/-- The lines of the method that prints one field. -/
def methodLines (start field : CodeText) : List CodeText :=
  [ofString "    private void " ++ start ++ field ++ ofString "()", ofString "    \x7b",
    ofString "        Console.WriteLine(\"" ++ field ++ ofString ": \" + " ++ field ++
      ofString ".ToString());", ofString "    \x7d"]

/-- The lines of a type with one method per field, an empty line between each two. -/
def typeLines (header start : CodeText) (fields : List CodeText) : List CodeText :=
  header :: ofString "\x7b" ::
    (List.intercalate [[]] (fields.map (methodLines start)) ++ [ofString "\x7d"])

theorem printMethod_lines (start field : CodeText) :
    printMethod start field = unlines (methodLines start field) := by
  have hopen : ofString "()\n    \x7b\n        " ++ ofString "Console.WriteLine(\"" =
      ofString "()" ++ .char '\n' :: (ofString "    \x7b" ++ .char '\n' ::
        ofString "        Console.WriteLine(\"") := by
    decide
  have hclose : ofString ".ToString());\n" ++ ofString "    \x7d\n" =
      ofString ".ToString());" ++ .char '\n' :: (ofString "    \x7d" ++ [.char '\n']) := by
    decide
  simp only [methodLines, unlines, List.flatMap_cons, List.flatMap_nil, List.append_nil,
    printMethod, printStatement, List.append_assoc, List.cons_append, List.nil_append]
  rw [← List.append_assoc (ofString "()\n    \x7b\n        "), hopen, hclose]
  simp only [List.append_assoc, List.cons_append]

theorem unlines_intercalate (blocks : List (List CodeText)) :
    unlines (List.intercalate [[]] blocks) =
      List.intercalate (ofString "\n") (blocks.map unlines) := by
  induction blocks with
  | nil => rfl
  | cons block rest ih =>
    cases rest with
    | nil => rw [List.intercalate_singleton, List.map_singleton, List.intercalate_singleton]
    | cons next rest =>
      rw [List.intercalate_cons_cons, List.map_cons, List.map_cons, List.intercalate_cons_cons,
        unlines_append, unlines_append, ih]
      rfl

theorem methodsBody_lines (header start : CodeText) (fields : List CodeText) :
    methodsBody header start fields ++ ofString "\n" = unlines (typeLines header start fields) := by
  have hmethods :
      fields.map (printMethod start) = (fields.map (methodLines start)).map unlines := by
    rw [List.map_map]
    exact List.map_congr_left fun field _ => printMethod_lines start field
  have hopen : ofString "\n\x7b\n" = .char '\n' :: (ofString "\x7b" ++ [.char '\n']) := by decide
  rw [methodsBody, typeLines, unlines_cons, unlines_cons, unlines_append, unlines_intercalate,
    hmethods, hopen]
  simp only [List.append_assoc, List.cons_append, List.nil_append]
  rfl

theorem forall_mem_intercalate {P : CodeText → Prop} {blocks : List (List CodeText)} (h : P [])
    (hblocks : ∀ block ∈ blocks, ∀ line ∈ block, P line) :
    ∀ line ∈ List.intercalate [[]] blocks, P line := by
  induction blocks with
  | nil => exact List.forall_mem_nil _
  | cons block rest ih =>
    obtain ⟨hblock, hrest⟩ := List.forall_mem_cons.mp hblocks
    cases rest with
    | nil => rwa [List.intercalate_singleton]
    | cons next rest =>
      rw [List.intercalate_cons_cons]
      exact List.forall_mem_append.mpr
        ⟨List.forall_mem_append.mpr ⟨hblock, List.forall_mem_singleton.mpr h⟩, ih hrest⟩

theorem methodLines_unbroken {start field : CodeText} (hs : Unbroken start)
    (hf : Unbroken field) : ∀ line ∈ methodLines start field, Unbroken line := by
  simp only [methodLines, List.forall_mem_cons, unbroken_append]
  exact ⟨⟨⟨⟨by decide, hs⟩, hf⟩, by decide⟩, by decide,
    ⟨⟨⟨⟨by decide, hf⟩, by decide⟩, hf⟩, by decide⟩, by decide, List.forall_mem_nil _⟩

theorem typeLines_unbroken {header start : CodeText} {fields : List CodeText}
    (hh : Unbroken header) (hs : Unbroken start) (hf : ∀ field ∈ fields, Unbroken field) :
    ∀ line ∈ typeLines header start fields, Unbroken line := by
  refine List.forall_mem_cons.mpr ⟨hh, List.forall_mem_cons.mpr ⟨by decide, ?_⟩⟩
  refine List.forall_mem_append.mpr ⟨forall_mem_intercalate (by decide) ?_, ?_⟩
  · intro block hblock
    obtain ⟨field, hfield, rfl⟩ := List.mem_map.mp hblock
    exact methodLines_unbroken hs (hf field hfield)
  · exact List.forall_mem_singleton.mpr (by decide)

/-! ## Fragments -/

/-- The lines of a fragment with the given lines for its type. -/
def fragmentLines (body : List CodeText) (home comment : CodeText) : List CodeText :=
  (if comment.isEmpty then [] else [comment]) ++ ofString "using System;" :: [] ::
    if home.isEmpty then body
    else (ofString "namespace " ++ home) :: ofString "\x7b" ::
      (body.map indented ++ [ofString "\x7d"])

/-- The lines before a type: the comment, if there is one, the using directive and an empty
line. -/
def openingLines (comment : CodeText) : List CodeText :=
  (if comment.isEmpty then [] else [comment]) ++ [ofString "using System;", []]

/-- The lines of a type inside of a namespace. -/
def namespaceLines (home : CodeText) (block : List CodeText) : List CodeText :=
  [ofString "namespace " ++ home, ofString "\x7b"] ++ block.map indented ++ [ofString "\x7d"]

theorem openingLines_unbroken {comment : CodeText} (h : Unbroken comment) :
    ∀ line ∈ openingLines comment, Unbroken line := by
  refine List.forall_mem_append.mpr ⟨?_, by decide⟩
  split
  · exact List.forall_mem_nil _
  · exact List.forall_mem_singleton.mpr h

theorem namespaceLines_unbroken {home : CodeText} {block : List CodeText} (hhome : Unbroken home)
    (hblock : ∀ line ∈ block, Unbroken line) :
    ∀ line ∈ namespaceLines home block, Unbroken line := by
  simp only [namespaceLines, List.forall_mem_append, List.forall_mem_cons, List.forall_mem_map,
    unbroken_append]
  exact ⟨⟨⟨⟨by decide, hhome⟩, by decide, List.forall_mem_nil _⟩,
    fun line hline => (hblock line hline).indented⟩, by decide, List.forall_mem_nil _⟩

theorem fragmentLines_global (body : List CodeText) (comment : CodeText) :
    fragmentLines body [] comment = openingLines comment ++ body := by
  rw [fragmentLines, openingLines, List.append_assoc]
  rfl

theorem fragmentLines_within {home : CodeText} (h : home ≠ []) (body : List CodeText)
    (comment : CodeText) :
    fragmentLines body home comment = openingLines comment ++ namespaceLines home body := by
  have hinside : ¬home.isEmpty = true := by rwa [List.isEmpty_iff]
  rw [fragmentLines, openingLines, if_neg hinside, List.append_assoc]
  rfl

theorem fragmentLines_unbroken {body : List CodeText} {home comment : CodeText}
    (hbody : ∀ line ∈ body, Unbroken line) (hhome : Unbroken home) (hc : Unbroken comment) :
    ∀ line ∈ fragmentLines body home comment, Unbroken line := by
  have hopening := openingLines_unbroken hc
  by_cases hglobal : home = []
  · subst hglobal
    rw [fragmentLines_global]
    exact List.forall_mem_append.mpr ⟨hopening, hbody⟩
  · rw [fragmentLines_within hglobal]
    exact List.forall_mem_append.mpr ⟨hopening, namespaceLines_unbroken hhome hbody⟩

theorem fragment_lines {text first home comment : CodeText} {rest : List CodeText}
    (h : text ++ ofString "\n" = unlines (first :: rest)) (hfirst : first ≠ [])
    (hlines : ∀ line ∈ first :: rest, Unbroken line) :
    fragment text home comment = unlines (fragmentLines (first :: rest) home comment) := by
  have hstart : (if comment.isEmpty then [] else comment ++ ofString "\n") =
      unlines (if comment.isEmpty then [] else [comment]) := by
    split
    · rfl
    · rw [unlines_cons]
      rfl
  have husing : ofString "using System;\n\n" =
      ofString "using System;" ++ .char '\n' :: [.char '\n'] := by decide
  rw [fragment, fragmentLines, unlines_append, unlines_cons, unlines_cons, hstart, husing]
  by_cases hhome : home.isEmpty = true
  · rw [if_pos hhome, if_pos hhome, ← h]
    simp only [List.append_assoc, List.cons_append, List.nil_append]
  · have hinside : indent text ++ [.char '\n'] = unlines ((first :: rest).map indented) :=
      indent_unlines h hfirst hlines
    have hopen : ofString "\n\x7b\n" = .char '\n' :: (ofString "\x7b" ++ [.char '\n']) := by decide
    have hclose : ofString "\n\x7d\n" = [.char '\n'] ++ unlines [ofString "\x7d"] := by decide
    rw [if_neg hhome, if_neg hhome, unlines_cons (ofString "namespace " ++ home), unlines_cons,
      unlines_append, ← hinside, hopen, hclose]
    simp only [List.append_assoc, List.cons_append, List.nil_append]

/-- **A fragment with print methods consists of these lines,** if nothing that is put in ends a
line. -/
theorem lines_printMethods {header start home comment : CodeText} {fields : List CodeText}
    (hne : header ≠ []) (hh : Unbroken header) (hs : Unbroken start)
    (hf : ∀ field ∈ fields, Unbroken field) (hhome : Unbroken home) (hc : Unbroken comment) :
    Text.lines (printMethods header fields home start comment) =
      fragmentLines (typeLines header start fields) home comment := by
  have hlines := typeLines_unbroken hh hs hf
  rw [printMethods, fragment_lines (methodsBody_lines header start fields) hne hlines]
  exact lines_unlines (fragmentLines_unbroken hlines hhome hc)

end Render

end PrintGen
