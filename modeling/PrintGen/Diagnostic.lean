import PrintGen.Symbols.Table

/-!
# Diagnostics

Messages to the caller about the input. The one that exists so far says that a nested type gets no
generated code.
-/

namespace PrintGen

open Symbols Syntax

/-- A warning with an optional place in a source. -/
structure Diagnostic where
  id : String
  message : String
  path : String
  line : Option Int
  column : Option Int
deriving DecidableEq, Repr

namespace Diagnostic

def severity : String :=
  "warning"

def numberText : Option Int → String
  | some n => toString n
  | none => "None"

/-- A diagnostic as one line. -/
def text (d : Diagnostic) : String :=
  sourceName d.path ++
    (if d.line.isSome then "(" ++ numberText d.line ++ "," ++ numberText d.column ++ ")" else "") ++
    ": " ++ severity ++ " " ++ d.id ++ ": " ++ d.message

/-- The diagnostic for a nested type that code would have to be generated for. Its place is the
given one, or else the first declaration of the type. -/
def nestedType (t : TypePath) (declarations : List Site) (origin : String) (site : Option Site) :
    Diagnostic :=
  let place := site.or declarations.head?
  { id := "PF0001"
    message := "'" ++ t.metadataName ++ "' is a nested type; " ++ origin ++
      " is only generated for top-level types"
    path := (place.map fun s => s.tree.path).getD ""
    line := place.map fun s => s.location.line
    column := place.map fun s => s.location.column }

end Diagnostic

end PrintGen
