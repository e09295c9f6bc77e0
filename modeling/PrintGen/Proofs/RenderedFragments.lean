import PrintGen.Proofs.RenderedLines

/-!
# Fragments line by line

Both kinds of fragments, the one with a method per field and the one that implements a stub, are
given as lists of lines. Around the lines of the type there is nothing but the comment, the using
directive and, unless the type lies in the global namespace, the namespace block. The namespace
moves the lines of the type in by a margin and changes nothing else.
-/

namespace PrintGen.Render

open Text
open Text.CodeText (ofString)

/-! ## Types with a summary method -/

/-- The line that prints a field, inside of a method. -/
def statementLine (field : CodeText) : CodeText :=
  ofString "        Console.WriteLine(\"" ++ field ++ ofString ": \" + " ++ field ++
    ofString ".ToString());"

/-- The lines of a type with one method that prints all fields. -/
def summaryLines (header signature : CodeText) (fields : List CodeText) : List CodeText :=
  header :: ofString "\x7b" :: (ofString "    " ++ signature) :: ofString "    \x7b" ::
    (fields.map statementLine ++ [ofString "    \x7d", ofString "\x7d"])

theorem printStatement_line (field : CodeText) :
    ofString "        " ++ printStatement field = statementLine field ++ [.char '\n'] := by
  have hopen : ofString "        " ++ ofString "Console.WriteLine(\"" =
      ofString "        Console.WriteLine(\"" := by
    decide
  have hclose : ofString ".ToString());\n" = ofString ".ToString());" ++ [.char '\n'] := by decide
  simp only [printStatement, statementLine, ← List.append_assoc, hopen, hclose]

theorem summaryBody_lines (header signature : CodeText) (fields : List CodeText) :
    summaryBody header signature fields ++ ofString "\n" =
      unlines (summaryLines header signature fields) := by
  have hstatements : (fields.flatMap fun field => ofString "        " ++ printStatement field) =
      unlines (fields.map statementLine) := by
    rw [unlines, List.flatMap_map]
    exact List.flatMap_congr fun field _ => printStatement_line field
  have hopen : ofString "\n\x7b\n    " =
      .char '\n' :: (ofString "\x7b" ++ .char '\n' :: ofString "    ") := by decide
  have hinner : ofString "\n    \x7b\n" = .char '\n' :: (ofString "    \x7b" ++ [.char '\n']) := by
    decide
  have hclose : ofString "    \x7d\n\x7d" ++ ofString "\n" =
      unlines [ofString "    \x7d", ofString "\x7d"] := by decide
  rw [summaryBody, summaryLines, unlines_cons, unlines_cons, unlines_cons, unlines_cons,
    unlines_append, hstatements, ← hclose, hopen, hinner]
  simp only [List.append_assoc, List.cons_append, List.nil_append]

theorem summaryLines_unbroken {header signature : CodeText} {fields : List CodeText}
    (hh : Unbroken header) (hs : Unbroken signature) (hf : ∀ field ∈ fields, Unbroken field) :
    ∀ line ∈ summaryLines header signature fields, Unbroken line := by
  have hstatement : ∀ field ∈ fields, Unbroken (statementLine field) := by
    intro field hfield
    simp only [statementLine, unbroken_append]
    exact ⟨⟨⟨⟨by decide, hf field hfield⟩, by decide⟩, hf field hfield⟩, by decide⟩
  simp only [summaryLines, List.forall_mem_cons, List.forall_mem_append, List.forall_mem_map,
    unbroken_append]
  exact ⟨hh, by decide, ⟨by decide, hs⟩, by decide, hstatement, by decide, by decide,
    List.forall_mem_nil _⟩

/-! ## What stands around a type -/

/-- A text is made of the given lines, each with a line feed after it, and of no others. -/
def Consists (text : CodeText) (ls : List CodeText) : Prop :=
  text = unlines ls ∧ Text.lines text = ls

/-- A rendering that depends on a namespace shows the given lines for its type: as they are in the
global namespace, further in inside of any other. -/
def Presents (render : CodeText → CodeText) (comment : CodeText) (block : List CodeText) : Prop :=
  Consists (render []) (openingLines comment ++ block) ∧
    ∀ home, home ≠ [] → Unbroken home →
      Consists (render home) (openingLines comment ++ namespaceLines home block)

theorem consists_unlines {text : CodeText} {ls : List CodeText} (h : text = unlines ls)
    (hls : ∀ line ∈ ls, Unbroken line) : Consists text ls :=
  ⟨h, by rw [h, lines_unlines hls]⟩

/-- A fragment around whole lines shows them. -/
theorem fragment_presents {text first comment : CodeText} {rest : List CodeText}
    (h : text ++ ofString "\n" = unlines (first :: rest)) (hfirst : first ≠ [])
    (hlines : ∀ line ∈ first :: rest, Unbroken line) (hc : Unbroken comment) :
    Presents (fun home => fragment text home comment) comment (first :: rest) := by
  have hconsists : ∀ home, Unbroken home → Consists (fragment text home comment)
      (fragmentLines (first :: rest) home comment) := fun home hhome =>
    consists_unlines (fragment_lines h hfirst hlines) (fragmentLines_unbroken hlines hhome hc)
  refine ⟨?_, fun home hne hhome => ?_⟩
  · rw [← fragmentLines_global]
    exact hconsists [] (List.forall_mem_nil _)
  · rw [← fragmentLines_within hne]
    exact hconsists home hhome

/-- **Both kinds of fragments are given by their lines,** whatever the number of fields and whatever
is put in, as long as the header of the type is not empty and nothing ends a line. The lines of the
type do not depend on the namespace. -/
theorem rendered_line_by_line {header signature start comment : CodeText} {fields : List CodeText}
    (hne : header ≠ []) (hheader : Unbroken header) (hsignature : Unbroken signature)
    (hstart : Unbroken start) (hcomment : Unbroken comment)
    (hfields : ∀ field ∈ fields, Unbroken field) :
    Presents (fun home => printMethods header fields home start comment) comment
        (typeLines header start fields) ∧
      Presents (fun home => printAll header signature fields home comment) comment
        (summaryLines header signature fields) :=
  ⟨fragment_presents (methodsBody_lines header start fields) hne
      (typeLines_unbroken hheader hstart hfields) hcomment,
    fragment_presents (summaryBody_lines header signature fields) hne
      (summaryLines_unbroken hheader hsignature hfields) hcomment⟩

namespace Sample

/-- The lines of the print methods of a class with two fields, one of them without a name, in a
namespace. -/
def pointLines : List CodeText :=
  ["using System;", "", "namespace N", "\x7b", "    partial class P", "    \x7b",
    "        private void PrintX()", "        \x7b",
    "            Console.WriteLine(\"X: \" + X.ToString());", "        \x7d", "",
    "        private void Print()", "        \x7b",
    "            Console.WriteLine(\": \" + .ToString());", "        \x7d", "    \x7d",
    "\x7d"].map ofString

/-- The lines of the summary method of the same class outside of all namespaces. -/
def pointSummary : List CodeText :=
  ["using System;", "", "partial class P", "\x7b", "    partial void PrintAllFields()",
    "    \x7b", "        Console.WriteLine(\"X: \" + X.ToString());",
    "        Console.WriteLine(\": \" + .ToString());", "    \x7d", "\x7d"].map ofString

end Sample

theorem rendered_lines_of_point :
    (ofString "partial class P" ≠ [] ∧ Unbroken (ofString "partial class P") ∧
      Unbroken (ofString "partial void PrintAllFields()") ∧ Unbroken (ofString "Print") ∧
      Unbroken [] ∧ ∀ field ∈ [ofString "X", []], Unbroken field) ∧
    Consists
      (printMethods (ofString "partial class P") [ofString "X", []] (ofString "N")
        (ofString "Print") []) Sample.pointLines ∧
    Consists
      (printAll (ofString "partial class P") (ofString "partial void PrintAllFields()")
        [ofString "X", []] [] []) Sample.pointSummary := by
  have hinputs : ofString "partial class P" ≠ [] ∧ Unbroken (ofString "partial class P") ∧
      Unbroken (ofString "partial void PrintAllFields()") ∧ Unbroken (ofString "Print") ∧
      Unbroken [] ∧ ∀ field ∈ [ofString "X", []], Unbroken field := by
    decide
  have hlines : openingLines [] ++ namespaceLines (ofString "N")
      (typeLines (ofString "partial class P") (ofString "Print") [ofString "X", []]) =
        Sample.pointLines ∧
      openingLines [] ++ summaryLines (ofString "partial class P")
        (ofString "partial void PrintAllFields()") [ofString "X", []] = Sample.pointSummary := by
    decide +kernel
  obtain ⟨hne, hheader, hsignature, hstart, hcomment, hfields⟩ := hinputs
  obtain ⟨⟨-, hmethods⟩, hsummary, -⟩ :=
    rendered_line_by_line hne hheader hsignature hstart hcomment hfields
  rw [← hlines.1, ← hlines.2]
  exact ⟨⟨hne, hheader, hsignature, hstart, hcomment, hfields⟩,
    hmethods (ofString "N") (by decide) (by decide), hsummary⟩

end PrintGen.Render
