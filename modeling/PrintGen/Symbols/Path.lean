import PrintGen.Syntax.Name
import PrintGen.Text.Quoted

/-!
# Paths of symbols

A namespace holds at most one namespace of each name and at most one type of each name and number
of type parameters, and so does a type for the types nested in it. A symbol is therefore known by
the path that leads to it from the global namespace, and all partial declarations of a type have
the same path. Paths may have any length, and their names are put together without a bound on the
depth of the recursion.
-/

namespace PrintGen.Symbols

open Syntax (Segment)

/-- A namespace, known by the names that lead to it. -/
inductive Namespace where
  | global
  | child (parent : Namespace) (name : String)
deriving DecidableEq, Repr

namespace Namespace

/-- The dotted name of a namespace; the global one has none. -/
def display : Namespace → String
  | global => ""
  | child parent name =>
    let outer := parent.display
    if outer = "" then name else outer ++ "." ++ name

def shown (n : Namespace) : String :=
  "NamespaceSymbol(" ++ Text.quoted (if n.display = "" then "<global>" else n.display) ++ ")"

end Namespace

/-- A type, known by its namespace, the types around it and its own name and arity. -/
inductive TypePath where
  | top (home : Namespace) (own : Segment)
  | nested (outer : TypePath) (own : Segment)
deriving DecidableEq, Repr

/-- The part that a segment adds to a metadata name: the arity follows a backtick unless it is
zero. -/
def metadataSegment (s : Segment) : String :=
  if s.arity = 0 then s.name else s.name ++ "`" ++ toString s.arity

namespace TypePath

def own : TypePath → Segment
  | top _ own => own
  | nested _ own => own

def name (t : TypePath) : String :=
  t.own.name

def outer? : TypePath → Option TypePath
  | top _ _ => none
  | nested outer _ => some outer

def home : TypePath → Namespace
  | top home _ => home
  | nested outer _ => outer.home

/-- Whether a type lies directly in a namespace. -/
def isTopLevel : TypePath → Bool
  | top _ _ => true
  | nested _ _ => false

/-- The metadata name, such as ``Geometry.Outer+Inner`` or ``Boxes.Box`1``. -/
def metadataName : TypePath → String
  | top home own =>
    if home.display = "" then metadataSegment own
    else home.display ++ "." ++ metadataSegment own
  | nested outer own => outer.metadataName ++ "+" ++ metadataSegment own

def shown (t : TypePath) : String :=
  "TypeSymbol(" ++ Text.quoted t.metadataName ++ ")"

end TypePath

def shownTypes (ts : List TypePath) : String :=
  "[" ++ ", ".intercalate (ts.map TypePath.shown) ++ "]"

/-- A field as messages show it, from the simple name of its type and its own. -/
def shownField (owner : TypePath) (name : String) : String :=
  "FieldSymbol(" ++ owner.name ++ "." ++ name ++ ")"

/-- What a name can stand for. -/
inductive Entity where
  | ofNamespace (n : Namespace)
  | ofType (t : TypePath)
deriving DecidableEq, Repr

end PrintGen.Symbols
