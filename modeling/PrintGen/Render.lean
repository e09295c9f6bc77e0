import PrintGen.Text.Lines

/-!
# Rendering fragments

The text of a generated source: an optional comment, the using directive and a partial type with its
generated methods, inside a namespace block unless the type lies in the global namespace. Texts are
put in as they are.
-/

namespace PrintGen.Render

open Text (CodeText)
open Text.CodeText (ofString)

/-- Wraps the text of a type in the using directive and its namespace. The body is indented only
inside a namespace. -/
def fragment (body home comment : CodeText) : CodeText :=
  (if comment.isEmpty then [] else comment ++ ofString "\n") ++ ofString "using System;\n\n" ++
    if home.isEmpty then body ++ ofString "\n"
    else
      ofString "namespace " ++ home ++ ofString "\n\x7b\n" ++ Text.indent body ++
        ofString "\n\x7d\n"

def printStatement (field : CodeText) : CodeText :=
  ofString "Console.WriteLine(\"" ++ field ++ ofString ": \" + " ++ field ++
    ofString ".ToString());\n"

def printMethod (methodPrefix field : CodeText) : CodeText :=
  ofString "    private void " ++ methodPrefix ++ field ++ ofString "()\n    \x7b\n        " ++
    printStatement field ++ ofString "    \x7d\n"

/-- A type with one method per field, an empty line between each two. -/
def methodsBody (header methodPrefix : CodeText) (fields : List CodeText) : CodeText :=
  header ++ ofString "\n\x7b\n" ++
    List.intercalate (ofString "\n") (fields.map (printMethod methodPrefix)) ++ ofString "\x7d"

/-- A type with one method that prints all fields. -/
def summaryBody (header signature : CodeText) (fields : List CodeText) : CodeText :=
  header ++ ofString "\n\x7b\n    " ++ signature ++ ofString "\n    \x7b\n" ++
    (fields.flatMap fun field => ofString "        " ++ printStatement field) ++
    ofString "    \x7d\n\x7d"

/-- The fragment with a print method for each field. -/
def printMethods (header : CodeText) (fields : List CodeText)
    (home methodPrefix comment : CodeText) : CodeText :=
  fragment (methodsBody header methodPrefix fields) home comment

/-- The fragment that implements a stub. -/
def printAll (header signature : CodeText) (fields : List CodeText) (home comment : CodeText) :
    CodeText :=
  fragment (summaryBody header signature fields) home comment

end PrintGen.Render
