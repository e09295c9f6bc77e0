import PrintGen.Json.Reader
import PrintGen.Syntax.Tree

/-!
# Tree listings

Trees come from a parser outside of this library, as a JSON object: `tree` holds the preorder
listing, a row being the kind, the flags, the byte range, the number of children and optionally the
label; `has_error` tells whether the source has errors. The flags are one for a named node and two
for a missing one.
-/

namespace PrintGen.Syntax

/-- The number that a value is; anything else counts as zero. -/
def naturalOf : Json → Nat
  | .int n => n.toNat
  | _ => 0

def Row.ofJson? : Json → Option Row
  | .arr (kind :: flags :: start :: stop :: count :: label) => do
    let kind ← kind.string?
    let flags := naturalOf flags
    return ⟨.ofSymbol kind, flags % 2 = 1, flags / 2 % 2 = 1, naturalOf start, naturalOf stop,
      naturalOf count, label.head?.bind fun l => l.string?.map Label.ofText⟩
  | _ => none

def emptyRoot : Node :=
  .mk (.other "compilation_unit") true false 0 0 none []

/-- The tree that a listing describes; without rows it is that of an empty source. -/
def Node.ofListing (listing : Json) : Node :=
  match listing with
  | .arr rows => (Node.ofRows? (rows.filterMap Row.ofJson?)).getD emptyRoot
  | _ => emptyRoot

/-- What a parser made of a text that has no errors and nothing of interest in it. -/
def Parsed.plain : Parsed :=
  ⟨false, emptyRoot⟩

/-- What a parser made of a text, from the members of its listing. -/
def Parsed.ofMembers (members : List (Text.CodeText × Json)) : Parsed :=
  ⟨((Json.member? "has_error" members).getD .null).truthy,
    .ofListing ((Json.member? "tree" members).getD .null)⟩

end PrintGen.Syntax
