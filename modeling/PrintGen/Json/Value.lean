import PrintGen.Json.Binary64
import PrintGen.Text.Quoted

/-!
# JSON values

Values as a settings file holds them. An object keeps its members in reading order, because both
the order in which settings are applied and the way a value is shown depend on it. Strings and keys
are code points, because an escape can name half of a surrogate pair.
-/

namespace PrintGen

open Text (CodeText)

inductive Json where
  | null
  | bool (b : Bool)
  | int (n : Int)
  | real (x : Binary64)
  | str (s : CodeText)
  | arr (items : List Json)
  | obj (members : List (CodeText × Json))
deriving Inhabited

namespace Json

def ofString (s : String) : Json :=
  .str (.ofString s)

def ofMembers (members : List (String × Json)) : Json :=
  .obj (members.map fun (k, v) => (.ofString k, v))

/-- Whether a value counts as true: everything but null, false, zero and what is empty. -/
def truthy : Json → Bool
  | .null => false
  | .bool b => b
  | .int n => n ≠ 0
  | .real x => x.isNonzero
  | .str s => !s.isEmpty
  | .arr items => !items.isEmpty
  | .obj members => !members.isEmpty

def intText (n : Int) : String :=
  if n < 0 then "-" ++ String.ofList (Nat.toDigits 10 n.natAbs)
  else String.ofList (Nat.toDigits 10 n.toNat)

mutual

/-- A value as messages show it. -/
def shown : Json → String
  | .null => "None"
  | .bool b => if b then "True" else "False"
  | .int n => intText n
  | .real x => x.text
  | .str s => Text.quotedText s
  | .arr items => "[" ++ ", ".intercalate (shownItems items) ++ "]"
  | .obj members => "\x7b" ++ ", ".intercalate (shownMembers members) ++ "\x7d"

def shownItems : List Json → List String
  | [] => []
  | v :: vs => shown v :: shownItems vs

def shownMembers : List (CodeText × Json) → List String
  | [] => []
  | (k, v) :: rest => (Text.quotedText k ++ ": " ++ shown v) :: shownMembers rest

end

/-- A value as text in a generated source: a string stands for itself. -/
def asText : Json → CodeText
  | .str s => s
  | v => .ofString v.shown

/-- The string that a value is, if it is one and consists of characters. -/
def string? : Json → Option String
  | .str s => s.string?
  | _ => none

/-- The value of the first member with the given key. -/
def valueAt? (key : CodeText) : List (CodeText × Json) → Option Json
  | [] => none
  | (k, v) :: rest => if k = key then some v else valueAt? key rest

def member? (key : String) (members : List (CodeText × Json)) : Option Json :=
  valueAt? (.ofString key) members

/-- A number as an integer, where truth values count as one and zero. -/
def asInt? : Json → Option Int
  | .bool b => some (if b then 1 else 0)
  | .int n => some n
  | _ => none

mutual

/-- Equality of values: numbers and truth values compare by amount, objects regardless of the
order of their members. -/
def same : Json → Json → Bool
  | .null, .null => true
  | .str s, .str t => s == t
  | .arr xs, .arr ys => sameItems xs ys
  | .obj xs, .obj ys => xs.length == ys.length && sameMembers xs ys
  | .real x, .real y => x.sameValue y
  | .real x, y => (y.asInt?.map x.equalsInt).getD false
  | x, .real y => (x.asInt?.map y.equalsInt).getD false
  | x, y =>
    match x.asInt?, y.asInt? with
    | some m, some n => m == n
    | _, _ => false

/-- Equality of arrays, item by item. -/
def sameItems : List Json → List Json → Bool
  | [], [] => true
  | x :: xs, y :: ys => same x y && sameItems xs ys
  | _, _ => false

/-- Whether each member of the first object has an equal one in the second. -/
def sameMembers : List (CodeText × Json) → List (CodeText × Json) → Bool
  | [], _ => true
  | (k, v) :: rest, ys =>
    (match valueAt? k ys with
      | some w => same v w
      | none => false) && sameMembers rest ys

end

end Json

end PrintGen
