/-!
# Integer numerals

Reading a whole number from text: blanks around it, an optional sign, then decimal digits of any
script with single underscores between them. Every script writes its ten digits at consecutive
code points, so the table only holds the zeros. A number with too many digits is refused as soon as
its digits are read, before what follows them is looked at.
-/

namespace PrintGen.Text

/-- The code points of the digit zero in every script with decimal digits, in increasing order. -/
def digitZeros : List Nat :=
  [0x30, 0x660, 0x6F0, 0x7C0, 0x966, 0x9E6, 0xA66, 0xAE6, 0xB66, 0xBE6, 0xC66, 0xCE6, 0xD66, 0xDE6,
   0xE50, 0xED0, 0xF20, 0x1040, 0x1090, 0x17E0, 0x1810, 0x1946, 0x19D0, 0x1A80, 0x1A90, 0x1B50,
   0x1BB0, 0x1C40, 0x1C50, 0xA620, 0xA8D0, 0xA900, 0xA9D0, 0xA9F0, 0xAA50, 0xABF0, 0xFF10, 0x104A0,
   0x10D30, 0x11066, 0x110F0, 0x11136, 0x111D0, 0x112F0, 0x11450, 0x114D0, 0x11650, 0x116C0,
   0x11730, 0x118E0, 0x11950, 0x11C50, 0x11D50, 0x11DA0, 0x16A60, 0x16AC0, 0x16B50, 0x1D7CE,
   0x1D7D8, 0x1D7E2, 0x1D7EC, 0x1D7F6, 0x1E140, 0x1E2F0, 0x1E950, 0x1FBF0]

/-- The value of a decimal digit of any script. -/
def digitValue? (c : Char) : Option Nat :=
  (digitZeros.find? fun first => first ≤ c.toNat && c.toNat < first + 10).map (c.toNat - ·)

/-- The blanks that may stand around a numeral. -/
def isBlank (c : Char) : Bool :=
  let n := c.toNat
  (0x09 ≤ n && n ≤ 0x0D) || n = 0x20 || n = 0x85 || n = 0xA0 || n = 0x1680 ||
    (0x2000 ≤ n && n ≤ 0x200A) || n = 0x2028 || n = 0x2029 || n = 0x202F || n = 0x205F || n = 0x3000

/-- Continues a numeral of value `acc` whose last character was a digit. -/
def digitsFrom? (acc : Nat) : List Char → Option Nat
  | [] => some acc
  | c :: cs =>
    match digitValue? c with
    | some d => digitsFrom? (10 * acc + d) cs
    | none =>
      if c = '_' then
        match cs with
        | d :: rest => (digitValue? d).bind fun v => digitsFrom? (10 * acc + v) rest
        | [] => none
      else none

/-- An unsigned numeral: it begins with a digit. -/
def natural? : List Char → Option Nat
  | [] => none
  | c :: cs => (digitValue? c).bind fun d => digitsFrom? d cs

def digitCount (cs : List Char) : Nat :=
  cs.countP fun c => (digitValue? c).isSome

/-- The most digits that an integer may be written with. -/
def maxDigits : Nat := 4300

inductive NumeralError where
  | malformed
  | tooLong (digits : Nat)
deriving DecidableEq, Repr

/-- Whether a character can stand inside a numeral after its sign. -/
def isNumeralChar (c : Char) : Bool :=
  c = '_' || (digitValue? c).isSome

/-- An unsigned numeral with blanks after it. -/
def unsigned (cs : List Char) : Except NumeralError Nat :=
  let run := cs.takeWhile isNumeralChar
  match natural? run with
  | none => .error .malformed
  | some n =>
    if maxDigits < digitCount run then .error (.tooLong (digitCount run))
    else if (cs.dropWhile isNumeralChar).all isBlank then .ok n
    else .error .malformed

/-- An integer with blanks around it and an optional sign in front. -/
def integer (text : String) : Except NumeralError Int :=
  match text.toList.dropWhile isBlank with
  | '+' :: cs => (unsigned cs).map Int.ofNat
  | '-' :: cs => (unsigned cs).map fun n => -Int.ofNat n
  | cs => (unsigned cs).map Int.ofNat

end PrintGen.Text
