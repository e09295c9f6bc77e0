import PrintGen.Fragment
import PrintGen.Render
import PrintGen.Resolve
import PrintGen.Settings

/-!
# Emitting fragments

From a type and its fields to the fragment that prints them. Only types directly in a namespace get
fragments.
-/

namespace PrintGen

open Syntax Symbols
open Text.CodeText (ofString)

/-- What the generated code repeats of a type. -/
structure TypeHeader where
  path : TypePath
  kind : TypeKind
  parameters : List String

namespace TypeHeader

/-- The header of a partial declaration of the type. -/
def text (h : TypeHeader) : String :=
  "partial " ++ h.kind.keyword ++ " " ++ h.path.name ++
    if h.parameters.isEmpty then "" else "<" ++ ", ".intercalate h.parameters ++ ">"

end TypeHeader

/-- The header of the method that implements a stub. -/
def StubGroup.signature {ι : Type} (g : StubGroup ι) : String :=
  " ".intercalate (g.modifiers ++ [g.returnType, g.methodName ++ "()"])

namespace Settings

/-- The first line of a generated text; empty if there is none. -/
def commentLine (s : Settings) : String :=
  if s.comment.truthy then "// <auto-generated/>" else ""

/-- The fragment with a print method for each field; none for a nested type. -/
def emitMethods (s : Settings) (h : TypeHeader) (fields : List String) (key : String) :
    Option Fragment :=
  if h.path.isTopLevel then
    some ⟨key, Render.printMethods (ofString h.text) (fields.map ofString)
      (ofString h.path.home.display) s.methodPrefix.asText (ofString s.commentLine)⟩
  else none

/-- The fragment that implements a stub; none for a nested type. -/
def emitStub {ι : Type} (s : Settings) (h : TypeHeader) (g : StubGroup ι) (key : String) :
    Option Fragment :=
  if h.path.isTopLevel then
    some ⟨key, Render.printAll (ofString h.text) (ofString g.signature)
      (g.fieldNames.map ofString) (ofString h.path.home.display) (ofString s.commentLine)⟩
  else none

end Settings

end PrintGen
