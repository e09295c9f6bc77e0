import PrintGen.Json.Value

/-!
# Writing JSON

The text of a value on one line, without white space. Members keep their order, and a number with
a fraction or an exponent stays one. Numbers beyond the finite ones are written as the words that
the reader knows.
-/

namespace PrintGen.Json

open Text (CodePoint CodeText)

/-- How one code point is written inside a string. -/
def writePoint : CodePoint → List Char
  | .char c =>
    if c = '"' || c = '\\' then ['\\', c]
    else if c.toNat < 0x20 then Text.shortEscape c.toNat
    else [c]
  | .half offset => Text.shortEscape (0xD800 + offset)

def writeString (s : CodeText) : String :=
  String.ofList ('"' :: s.flatMap writePoint ++ ['"'])

def writeReal : Binary64 → String
  | .nan => "NaN"
  | .infinite negative => if negative then "-Infinity" else "Infinity"
  | x => x.text

mutual

def write : Json → String
  | .null => "null"
  | .bool b => if b then "true" else "false"
  | .int n => intText n
  | .real x => writeReal x
  | .str s => writeString s
  | .arr items => "[" ++ ",".intercalate (writeItems items) ++ "]"
  | .obj members => "\x7b" ++ ",".intercalate (writeMembers members) ++ "\x7d"

def writeItems : List Json → List String
  | [] => []
  | v :: vs => write v :: writeItems vs

def writeMembers : List (CodeText × Json) → List String
  | [] => []
  | (k, v) :: rest => (writeString k ++ ":" ++ write v) :: writeMembers rest

end

end PrintGen.Json
