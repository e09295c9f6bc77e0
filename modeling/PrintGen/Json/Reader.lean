import PrintGen.Json.Value
import PrintGen.Text.Numeral

/-!
# Reading JSON

A recursive descent reader over the characters of a text. Of members with one key the last value
counts and the first position; besides the standard numbers the words `NaN`, `Infinity` and
`-Infinity` are numbers. Two escapes that form a surrogate pair are one character, and a half
without its partner stays. An integer with too many digits and a value nested too deeply end the
reading where they stand, before anything after them is looked at. The reader of nested values
carries a bound on its steps that no text reaches.
-/

namespace PrintGen.Json

open Text (CodePoint CodeText)

inductive ReadError where
  | malformed
  | longInteger (digits : Nat)
  | tooDeep
deriving DecidableEq, Repr

/-- What a reader gives: a result and the text after it, or an error. -/
abbrev Reading (α : Type) := Except ReadError (α × List Char)

def isSpace (c : Char) : Bool :=
  c = ' ' || c = '\t' || c = '\n' || c = '\r'

def skipSpace (cs : List Char) : List Char :=
  cs.dropWhile isSpace

def hexValue? (c : Char) : Option Nat :=
  if '0' ≤ c && c ≤ '9' then some (c.toNat - 0x30)
  else if 'a' ≤ c && c ≤ 'f' then some (c.toNat - 0x57)
  else if 'A' ≤ c && c ≤ 'F' then some (c.toNat - 0x37)
  else none

/-- The number that four hexadecimal digits write. -/
def codeUnit? (a b c d : Char) : Option Nat := do
  return ((← hexValue? a) * 16 + (← hexValue? b)) * 256 + (← hexValue? c) * 16 + (← hexValue? d)

/-- The character that a one-letter escape stands for. -/
def escaped? : Char → Option Char
  | '"' => some '"'
  | '\\' => some '\\'
  | '/' => some '/'
  | 'b' => some '\x08'
  | 'f' => some '\x0c'
  | 'n' => some '\n'
  | 'r' => some '\r'
  | 't' => some '\t'
  | _ => none

/-- Adds the first half of a surrogate pair whose second half did not follow. -/
def settle (acc : CodeText) : Option Nat → CodeText
  | some unit => .ofUnit unit :: acc
  | none => acc

/-- The character of a surrogate pair. -/
def joinUnits (high low : Nat) : Char :=
  Char.ofNat (0x10000 + (high - 0xD800) * 0x400 + (low - 0xDC00))

/-- The rest of a string, given what is read of it in reverse and a first half of a surrogate pair
that still waits for its second. -/
def stringFrom (acc : CodeText) (high : Option Nat) : List Char → Reading CodeText
  | '"' :: cs => .ok ((settle acc high).reverse, cs)
  | '\\' :: 'u' :: a :: b :: c :: d :: cs =>
    match codeUnit? a b c d with
    | none => .error .malformed
    | some unit =>
      if 0xD800 ≤ unit && unit < 0xDC00 then stringFrom (settle acc high) (some unit) cs
      else if 0xDC00 ≤ unit && unit < 0xE000 then
        match high with
        | some first => stringFrom (.char (joinUnits first unit) :: acc) none cs
        | none => stringFrom (.ofUnit unit :: acc) none cs
      else stringFrom (.char (Char.ofNat unit) :: settle acc high) none cs
  | '\\' :: e :: cs =>
    match escaped? e with
    | some c => stringFrom (.char c :: settle acc high) none cs
    | none => .error .malformed
  | c :: cs =>
    if c.toNat < 0x20 || c = '\\' then .error .malformed
    else stringFrom (.char c :: settle acc high) none cs
  | [] => .error .malformed

/-- Whether a character is one of the ten digits. -/
def isDigit (c : Char) : Bool :=
  '0' ≤ c && c ≤ '9'

def digitsValue (ds : List Char) : Nat :=
  ds.foldl (fun n d => 10 * n + (d.toNat - 0x30)) 0

/-- The fraction of a number: a point and at least one digit. -/
def fraction : List Char → List Char × List Char
  | '.' :: cs =>
    match cs.takeWhile isDigit with
    | [] => ([], '.' :: cs)
    | ds => (ds, cs.dropWhile isDigit)
  | cs => ([], cs)

/-- The digits of an exponent after its sign. -/
def exponentDigits? (negative : Bool) (cs : List Char) : Option (Int × List Char) :=
  match cs.takeWhile isDigit with
  | [] => none
  | ds =>
    let n : Int := digitsValue ds
    some (if negative then -n else n, cs.dropWhile isDigit)

/-- The exponent of a number, if one follows. -/
def exponent? : List Char → Option (Int × List Char)
  | e :: cs =>
    if e = 'e' || e = 'E' then
      match cs with
      | '+' :: rest => exponentDigits? false rest
      | '-' :: rest => exponentDigits? true rest
      | rest => exponentDigits? false rest
    else none
  | [] => none

/-- The digits before the point: a zero alone, or digits that do not begin with one. -/
def wholeDigits (cs : List Char) : List Char × List Char :=
  match cs with
  | '0' :: rest => (['0'], rest)
  | _ => (cs.takeWhile isDigit, cs.dropWhile isDigit)

/-- A number after its sign. -/
def unsigned (negative : Bool) (cs : List Char) : Reading Json :=
  match wholeDigits cs with
  | ([], _) => .error .malformed
  | (whole, rest) =>
    let (part, rest) := fraction rest
    match part, exponent? rest with
    | [], none =>
      if Text.maxDigits < whole.length then .error (.longInteger whole.length)
      else
        let n : Int := digitsValue whole
        .ok (.int (if negative then -n else n), rest)
    | part, e =>
      let (power, rest) := e.getD (0, rest)
      .ok (.real (.ofDecimal negative (digitsValue (whole ++ part)) (power - part.length)), rest)

/-- The words that stand for values. -/
def words : List (List Char × Json) :=
  [("null".toList, .null), ("true".toList, .bool true), ("false".toList, .bool false),
   ("NaN".toList, .real .nan), ("Infinity".toList, .real (.infinite false)),
   ("-Infinity".toList, .real (.infinite true))]

/-- A value that is no string, array or object. -/
def scalar (cs : List Char) : Reading Json :=
  match words.find? fun w => w.1.isPrefixOf cs with
  | some (w, v) => .ok (v, cs.drop w.length)
  | none =>
    match cs with
    | '-' :: rest => unsigned true rest
    | _ => unsigned false cs

/-- Adds a member to an object: a key that is there keeps its position and takes the new value. -/
def putMember (key : CodeText) (value : Json) : List (CodeText × Json) → List (CodeText × Json)
  | [] => [(key, value)]
  | (k, v) :: rest => if k = key then (k, value) :: rest else (k, v) :: putMember key value rest

/-- The key of a member and the text after its colon. -/
def memberKey : List Char → Reading CodeText
  | '"' :: cs =>
    match stringFrom [] none cs with
    | .error e => .error e
    | .ok (key, rest) =>
      match skipSpace rest with
      | ':' :: rest => .ok (key, skipSpace rest)
      | _ => .error .malformed
  | _ => .error .malformed

mutual

/-- A value and the text after it. Arrays and objects may be nested `depth` deep. -/
def value (fuel depth : Nat) (cs : List Char) : Reading Json :=
  match fuel with
  | 0 => .error .malformed
  | fuel + 1 =>
    match cs, depth with
    | '"' :: rest, _ => (stringFrom [] none rest).map fun (s, rest) => (.str s, rest)
    | '[' :: _, 0 => .error .tooDeep
    | '\x7b' :: _, 0 => .error .tooDeep
    | '[' :: rest, depth + 1 =>
      match skipSpace rest with
      | ']' :: rest => .ok (.arr [], rest)
      | rest => items fuel depth [] rest
    | '\x7b' :: rest, depth + 1 =>
      match skipSpace rest with
      | '\x7d' :: rest => .ok (.obj [], rest)
      | rest => members fuel depth [] rest
    | _, _ => scalar cs

/-- The items of an array up to its end, after those read already. -/
def items (fuel depth : Nat) (done : List Json) (cs : List Char) : Reading Json :=
  match fuel with
  | 0 => .error .malformed
  | fuel + 1 =>
    match value fuel depth cs with
    | .error e => .error e
    | .ok (v, rest) =>
      match skipSpace rest with
      | ',' :: rest => items fuel depth (v :: done) (skipSpace rest)
      | ']' :: rest => .ok (.arr (v :: done).reverse, rest)
      | _ => .error .malformed

/-- The members of an object up to its end, after those read already. -/
def members (fuel depth : Nat) (done : List (CodeText × Json)) (cs : List Char) :
    Reading Json :=
  match fuel with
  | 0 => .error .malformed
  | fuel + 1 =>
    match memberKey cs with
    | .error e => .error e
    | .ok (key, rest) =>
      match value fuel depth rest with
      | .error e => .error e
      | .ok (v, rest) =>
        match skipSpace rest with
        | ',' :: rest => members fuel depth (putMember key v done) (skipSpace rest)
        | '\x7d' :: rest => .ok (.obj (putMember key v done), rest)
        | _ => .error .malformed

end

/-- How deep arrays and objects may be nested. -/
def maxDepth : Nat := 985

/-- The value that a whole text writes. -/
def read (text : String) : Except ReadError Json :=
  let cs := text.toList
  match value (2 * cs.length + 2) maxDepth (skipSpace cs) with
  | .error e => .error e
  | .ok (v, rest) => if (skipSpace rest).isEmpty then .ok v else .error .malformed

end PrintGen.Json
