/-!
# Control sequences

Terminals are told about colours and the like by sequences of characters: an escape character and a
bracket, then parameter characters, intermediate characters and one final character. Output that
goes to no terminal is freed of them. A sequence without its final character is ordinary text.
-/

namespace PrintGen.Text

def inRange (c : Char) (low high : Nat) : Bool :=
  low ≤ c.toNat && c.toNat ≤ high

/-- The length of what follows the bracket of a control sequence; zero if it is not one. -/
def sequenceBody (cs : List Char) : Nat :=
  let parameters := cs.takeWhile (inRange · 0x30 0x3F)
  let rest := cs.drop parameters.length
  let intermediates := rest.takeWhile (inRange · 0x20 0x2F)
  match rest.drop intermediates.length with
  | c :: _ => if inRange c 0x40 0x7E then parameters.length + intermediates.length + 1 else 0
  | [] => 0

/-- The length of the control sequence at the beginning of a text; zero if there is none. -/
def sequenceLength : List Char → Nat
  | '\x1b' :: '[' :: cs => if sequenceBody cs = 0 then 0 else sequenceBody cs + 2
  | _ => 0

/-- The text without control sequences, after the given number of characters that still belong to
one. -/
def dropSequences : Nat → List Char → List Char
  | _, [] => []
  | skip + 1, _ :: cs => dropSequences skip cs
  | 0, c :: cs =>
    match sequenceLength (c :: cs) with
    | 0 => c :: dropSequences 0 cs
    | n + 1 => dropSequences n cs

/-- A text without its control sequences. -/
def plain (text : String) : String :=
  String.ofList (dropSequences 0 text.toList)

end PrintGen.Text
