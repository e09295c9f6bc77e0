/-!
# Code points

An escape in a JSON text can name any code point, also one half of a surrogate pair, which is no
character. Text from there is a list of code points. It can be stored in a file exactly when it
consists of characters.
-/

namespace PrintGen.Text

/-- A code point: a character, or one half of a surrogate pair without the other. The half with
offset `n` is the code point `0xD800 + n`. -/
inductive CodePoint where
  | char (c : Char)
  | half (offset : Fin 0x800)
deriving DecidableEq, Repr

def CodePoint.char? : CodePoint → Option Char
  | char c => some c
  | half _ => none

/-- The half of a surrogate pair that a code unit is. -/
def CodePoint.ofUnit (unit : Nat) : CodePoint :=
  .half (Fin.ofNat 0x800 unit)

/-- A text that may have halves of surrogate pairs in it. -/
abbrev CodeText := List CodePoint

namespace CodeText

def ofString (s : String) : CodeText :=
  s.toList.map .char

/-- The string that a text is, if it consists of characters. -/
def string? (text : CodeText) : Option String :=
  (text.mapM CodePoint.char?).map String.ofList

theorem ofString_append (s t : String) : ofString (s ++ t) = ofString s ++ ofString t := by
  rw [ofString, String.toList_append, List.map_append]
  rfl

theorem ofString_inj {s t : String} (h : ofString s = ofString t) : s = t :=
  String.toList_inj.mp ((List.map_inj_right fun _ _ => CodePoint.char.inj).mp h)

theorem mem_ofString {c : Char} {s : String} : CodePoint.char c ∈ ofString s ↔ c ∈ s.toList := by
  simp [ofString]

/-- A text that consists of characters is the text of its string. -/
theorem string?_eq_some {text : CodeText} {s : String} : text.string? = some s ↔
    text = ofString s := by
  have hlist : ∀ (ps : CodeText) (cs : List Char),
      ps.mapM CodePoint.char? = some cs ↔ ps = cs.map CodePoint.char := by
    intro ps
    induction ps with
    | nil => simp [eq_comm]
    | cons p ps ih =>
      intro cs
      cases p with
      | half n => cases cs <;> simp [CodePoint.char?]
      | char c =>
        cases cs with
        | nil => simp [CodePoint.char?, Option.bind_eq_some_iff]
        | cons c' cs => simp [CodePoint.char?, Option.bind_eq_some_iff, ih, and_left_comm]
  rw [string?, Option.map_eq_some_iff]
  constructor
  · rintro ⟨cs, hcs, rfl⟩
    rw [(hlist text cs).mp hcs, ofString, String.toList_ofList]
  · rintro rfl
    exact ⟨s.toList, (hlist _ _).mpr rfl, String.ofList_toList⟩

end CodeText

end PrintGen.Text
