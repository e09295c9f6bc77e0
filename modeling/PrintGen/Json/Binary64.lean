/-!
# Binary floating-point numbers

Numbers with a fraction or an exponent are kept in the 64-bit binary format: a sign, a significand
below `2 ^ 53` and a power of two. Reading rounds to the nearest such number, a half goes to the
even significand. Writing takes the fewest decimal digits that read back as the same number, of
those the nearest, and of two equally near the even one.
-/

namespace PrintGen

/-- A 64-bit binary floating-point number. A finite one is `significand * 2 ^ exponent`. -/
inductive Binary64 where
  | finite (negative : Bool) (significand : Nat) (exponent : Int)
  | infinite (negative : Bool)
  | nan
deriving DecidableEq, Repr

namespace Binary64

/-- The quotient of two numbers rounded to the nearest, a half to the even neighbour. -/
def roundQuotient (n d : Nat) : Nat :=
  let q := n / d
  let r := n % d
  if 2 * r > d || (2 * r = d && q % 2 = 1) then q + 1 else q

/-- The pair `num / den * base ^ e` as a quotient of naturals. -/
def scale (base num den : Nat) (e : Int) : Nat × Nat :=
  if 0 ≤ e then (num * base.pow e.toNat, den) else (num, den * base.pow (-e).toNat)

/-- The number nearest to the quotient of two positive naturals. -/
def ofQuotient (negative : Bool) (num den : Nat) : Binary64 :=
  let e : Int := (Nat.log2 num : Int) - Nat.log2 den
  let (n, d) := scale 2 num den (-e)
  let floor := if d ≤ n then e else e - 1
  let q := max (floor - 52) (-1074)
  let (n, d) := scale 2 num den (-q)
  let m := roundQuotient n d
  let (m, q) := if m = Nat.pow 2 53 then (Nat.pow 2 52, q + 1) else (m, q)
  if q > 971 then .infinite negative else .finite negative m q

def digitCount (n : Nat) : Nat :=
  (Nat.toDigits 10 n).length

/-- The number nearest to `digits * 10 ^ power`. Values beyond the format's range are decided by
their size alone. -/
def ofDecimal (negative : Bool) (digits : Nat) (power : Int) : Binary64 :=
  if digits = 0 then .finite negative 0 (-1074)
  else
    let size := digitCount digits + power
    if size > 400 then .infinite negative
    else if size < -400 then .finite negative 0 (-1074)
    else
      let (n, d) := scale 10 digits 1 power
      ofQuotient negative n d

/-- The place of the decimal point: the least `p` with `num / den < 10 ^ p`, searched upwards. -/
def pointFrom (num den : Nat) : Nat → Int → Int
  | 0, p => p
  | fuel + 1, p =>
    let (n, d) := scale 10 num den (-p)
    if n < d then p else pointFrom num den fuel (p + 1)

/-- Of the two neighbours of `num / den` on the grid of step `10 ^ power`, the one that reads back
as `x`, the nearer one if both do, and the even one if both are equally near. -/
def onGrid? (x : Binary64) (num den : Nat) (power : Int) : Option Nat :=
  let (n, d) := scale 10 num den (-power)
  let low := n / d
  let reads (digits : Nat) : Bool := ofDecimal false digits power == x
  match reads low, reads (low + 1) with
  | true, true => some (roundQuotient n d)
  | true, false => some low
  | false, true => some (low + 1)
  | false, false => none

/-- Tries grids with more and more digits, up to `left` more. -/
def shortestFrom (x : Binary64) (num den : Nat) (point : Int) (count : Nat) : Nat → Nat × Int
  | 0 => (num / den, 0)
  | left + 1 =>
    match onGrid? x num den (point - count) with
    | some digits => (digits, point - count)
    | none => shortestFrom x num den point (count + 1) left

/-- The fewest digits `d` and a power `k` such that `d * 10 ^ k` reads back as
`significand * 2 ^ exponent`. -/
def shortest (significand : Nat) (exponent : Int) : Nat × Int :=
  let (num, den) := scale 2 significand 1 exponent
  shortestFrom (.finite false significand exponent) num den (pointFrom num den 700 (-330)) 1 17

def trimZeros (ds : List Char) : List Char :=
  (ds.reverse.dropWhile (· = '0')).reverse

/-- The text of an exponent: its sign and at least two digits. -/
def exponentText (e : Int) : List Char :=
  let ds := Nat.toDigits 10 e.natAbs
  (if e < 0 then '-' else '+') :: (if ds.length < 2 then '0' :: ds else ds)

/-- The text of the digits `ds` with the decimal point after the first `point` of them. Positional
from `0.0001` up to sixteen digits before the point, with an exponent beyond. -/
def decimalText (ds : List Char) (point : Int) : List Char :=
  if -4 < point && point ≤ 16 then
    if point ≤ 0 then
      '0' :: '.' :: List.replicate (-point).toNat '0' ++ ds
    else
      let n := point.toNat
      if ds.length ≤ n then ds ++ List.replicate (n - ds.length) '0' ++ ['.', '0']
      else ds.take n ++ '.' :: ds.drop n
  else
    let mantissa := match ds with
      | [d] => [d]
      | d :: rest => d :: '.' :: rest
      | [] => []
    mantissa ++ 'e' :: exponentText (point - 1)

def text : Binary64 → String
  | .nan => "nan"
  | .infinite negative => if negative then "-inf" else "inf"
  | .finite negative significand exponent =>
    let body :=
      if significand = 0 then ['0', '.', '0']
      else
        let (digits, power) := shortest significand exponent
        let ds := Nat.toDigits 10 digits
        decimalText (trimZeros ds) (ds.length + power)
    String.ofList (if negative then '-' :: body else body)

def isNonzero : Binary64 → Bool
  | .finite _ significand _ => significand ≠ 0
  | _ => true

def equalsInt (x : Binary64) (n : Int) : Bool :=
  match x with
  | .finite negative significand exponent =>
    let (num, den) := scale 2 significand 1 exponent
    (if negative then -(num : Int) else num) == n * den
  | _ => false

/-- Equality of values: the two zeros are equal. -/
def sameValue : Binary64 → Binary64 → Bool
  | .finite _ 0 _, .finite _ 0 _ => true
  | x, y => x == y

end Binary64

end PrintGen
