/-!
# Similar words

How much two words have in common: the longest block of characters that both have is taken out, and
what stands before it and what stands after it is compared in the same way. Two words are similar
if at least three fifths of their characters belong to such blocks.
-/

namespace PrintGen.Text

/-- How many characters two texts have in common at their beginning. -/
def sharedStart : List Char → List Char → Nat
  | a :: as, b :: bs => if a = b then sharedStart as bs + 1 else 0
  | _, _ => 0

/-- A block that two texts share: where it begins in each, and its length. -/
structure Block where
  first : Nat
  second : Nat
  size : Nat
deriving DecidableEq, Repr

/-- The blocks that begin with the first character of `as`, which stands at position `i`, and at
each position of `bs` from `j` on. -/
def blocksAt (i : Nat) (as : List Char) (j : Nat) : List Char → List Block
  | [] => []
  | b :: bs => ⟨i, j, sharedStart as (b :: bs)⟩ :: blocksAt i as (j + 1) bs

/-- The blocks at all positions of two texts, the first of which begins at position `i`. -/
def blocks (bs : List Char) (i : Nat) : List Char → List Block
  | [] => []
  | a :: as => blocksAt i (a :: as) 0 bs ++ blocks bs (i + 1) as

/-- The longest block that two texts share; of several the first in `as`, and of those the first
in `bs`. -/
def longestBlock (as bs : List Char) : Block :=
  (blocks bs 0 as).foldl (fun best b => if best.size < b.size then b else best) ⟨0, 0, 0⟩

/-- How many characters of two texts belong to shared blocks, with a bound on the length of the
first. -/
def sharedWithin : Nat → List Char → List Char → Nat
  | 0, _, _ => 0
  | bound + 1, as, bs =>
    let b := longestBlock as bs
    if b.size = 0 then 0
    else
      sharedWithin bound (as.take b.first) (bs.take b.second) + b.size +
        sharedWithin bound (as.drop (b.first + b.size)) (bs.drop (b.second + b.size))

/-- How many characters of the first text belong to blocks shared with the second. -/
def shared (as bs : List Char) : Nat :=
  sharedWithin as.length as bs

/-- A word compared with another: the characters in shared blocks, and the characters of both
words together. -/
structure Likeness where
  word : String
  common : Nat
  total : Nat
deriving DecidableEq, Repr

def Likeness.of (given known : String) : Likeness :=
  ⟨known, shared known.toList given.toList, known.length + given.length⟩

def Likeness.isClose (l : Likeness) : Bool :=
  3 * l.total ≤ 10 * l.common

/-- Whether a word comes before another when the closest come first; of words that are equally
close the greater one does. -/
def Likeness.before (l m : Likeness) : Bool :=
  if l.common * m.total = m.common * l.total then !(l.word < m.word)
  else m.common * l.total < l.common * m.total

/-- The known words similar to a given one, at most three of them, in alphabetical order. -/
def similarWords (known : List String) (given : String) : List String :=
  let close := (known.map (Likeness.of given)).filter Likeness.isClose
  let best := (close.mergeSort Likeness.before).take 3
  (best.map Likeness.word).mergeSort fun a b => !(b < a)

end PrintGen.Text
