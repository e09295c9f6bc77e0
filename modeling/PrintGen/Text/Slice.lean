/-!
# Byte ranges of a text

Positions in a source are byte offsets into its UTF-8 form. A range is cut out of the list of
characters; it has a text exactly when it is empty or both its ends fall between two characters.
-/

namespace PrintGen.Text

/-- What remains after the first `n` bytes; nothing if the cut falls inside a character. -/
def dropBytes : List Char → Nat → Option (List Char)
  | cs, 0 => some cs
  | [], _ + 1 => some []
  | c :: cs, n + 1 =>
    if c.utf8Size ≤ n + 1 then dropBytes cs (n + 1 - c.utf8Size) else none

/-- The first `n` bytes, or the whole text if it is shorter; nothing if the cut falls inside a
character. -/
def takeBytes : List Char → Nat → Option (List Char)
  | _, 0 => some []
  | [], _ + 1 => some []
  | c :: cs, n + 1 =>
    if c.utf8Size ≤ n + 1 then (takeBytes cs (n + 1 - c.utf8Size)).map (c :: ·) else none

/-- The characters between two byte offsets. -/
def slice? (cs : List Char) (start stop : Nat) : Option (List Char) :=
  if stop ≤ start then some []
  else (dropBytes cs start).bind fun rest => takeBytes rest (stop - start)

/-- A place in a source: line and column, both counted from one. Columns count bytes. -/
structure Location where
  line : Nat
  column : Nat
deriving DecidableEq, Repr

/-- The place `n` bytes after the given one, where `cs` is the text that follows it. -/
def locateFrom (place : Location) : List Char → Nat → Location
  | _, 0 => place
  | [], n + 1 => ⟨place.line, place.column + (n + 1)⟩
  | c :: cs, n + 1 =>
    if c = '\n' then locateFrom ⟨place.line + 1, 1⟩ cs n
    else if c.utf8Size ≤ n + 1 then
      locateFrom ⟨place.line, place.column + c.utf8Size⟩ cs (n + 1 - c.utf8Size)
    else ⟨place.line, place.column + (n + 1)⟩

/-- The place of a byte offset. Only a line feed ends a line. -/
def locate (cs : List Char) (offset : Nat) : Location :=
  locateFrom ⟨1, 1⟩ cs offset

end PrintGen.Text
