import PrintGen.Text.CodePoint

/-!
# Lines

Splitting text at line boundaries and indenting a block of lines. A carriage return followed by a
line feed is one boundary; a boundary at the very end of the text opens no further line.
-/

namespace PrintGen.Text

def isLineEnd : CodePoint → Bool
  | .char c =>
    let n := c.toNat
    (0x0A ≤ n && n ≤ 0x0D) || (0x1C ≤ n && n ≤ 0x1E) || n = 0x85 || n = 0x2028 || n = 0x2029
  | .half _ => false

/-- The lines of a text, given the code points of the current line in reverse. The flag tells that
the one before was a carriage return that already ended its line. -/
def linesFrom (line : CodeText) (afterReturn : Bool) : CodeText → List CodeText
  | [] => if line.isEmpty then [] else [line.reverse]
  | p :: ps =>
    if afterReturn && p = .char '\n' then linesFrom [] false ps
    else if isLineEnd p then line.reverse :: linesFrom [] (p = .char '\r') ps
    else linesFrom (p :: line) false ps

/-- The lines of a text, without their ends. -/
def lines (text : CodeText) : List CodeText :=
  linesFrom [] false text

/-- Joins lines with a line feed between each two. -/
def joinLines (ls : List CodeText) : CodeText :=
  List.intercalate [.char '\n'] ls

def margin : CodeText := .ofString "    "

/-- Indents a block: the first line always gets the margin, a later line only if it is not
empty. -/
def indent (text : CodeText) : CodeText :=
  match lines (text ++ [.char '\n']) with
  | [] => margin
  | first :: rest =>
    joinLines ((margin ++ first) :: rest.map fun l => if l.isEmpty then l else margin ++ l)

/-- Reads every line ending of a file as a line feed: a carriage return, alone or before a line
feed, counts as one. -/
def unifyLineEnds : List Char → List Char
  | [] => []
  | '\r' :: '\n' :: cs => '\n' :: unifyLineEnds cs
  | '\r' :: cs => '\n' :: unifyLineEnds cs
  | c :: cs => c :: unifyLineEnds cs

/-- No carriage return is left. -/
theorem return_not_mem_unifyLineEnds (cs : List Char) : '\r' ∉ unifyLineEnds cs := by
  fun_induction unifyLineEnds cs with
  | case1 => simp
  | case2 cs ih => simp [ih]
  | case3 cs _ ih => simp [ih]
  | case4 c cs _ hc ih =>
    rw [List.mem_cons, not_or]
    exact ⟨fun h => hc h.symm, ih⟩

theorem unifyLineEnds_of_not_mem {cs : List Char} (h : '\r' ∉ cs) : unifyLineEnds cs = cs := by
  fun_induction unifyLineEnds cs with
  | case1 => rfl
  | case2 cs => simp at h
  | case3 cs => simp at h
  | case4 c cs _ _ ih =>
    rw [List.mem_cons, not_or] at h
    rw [ih h.2]

end PrintGen.Text
