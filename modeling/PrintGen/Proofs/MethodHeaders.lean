import PrintGen.Emit
import PrintGen.Json.Reader
import PrintGen.Proofs.QualifiedNames
import PrintGen.Proofs.RenderedLines

/-!
# The names of generated methods

The method for a field is named by the prefix followed by the name of the field, both as they are
written. Which characters can begin and continue an identifier is left open here; they may also be
written as escapes. Two identifiers without marks put together are again a word, but the mark of a
verbatim identifier can only stand in front, and the word may be a reserved one. So not every field
gets a method that can be compiled.
-/

namespace PrintGen

open Text (CodeText Unbroken unbroken_append)
open Text.CodeText (ofString)

/-! ## Identifiers -/

namespace Lexical

/-- A character that is not the mark of a verbatim identifier and does not end a line. -/
def Harmless (c : Char) : Prop :=
  c ≠ '@' ∧ Text.isLineEnd (.char c) = false

instance (c : Char) : Decidable (Harmless c) :=
  inferInstanceAs (Decidable (_ ∧ _))

/-- The characters that can begin and continue an identifier. -/
structure Alphabet where
  begins : Char → Bool
  continues : Char → Bool
  continues_of_begins : ∀ c, begins c = true → continues c = true
  harmless : ∀ c, continues c = true → Harmless c

/-- The number that hexadecimal digits write. -/
def hexNumber? (digits : List Char) : Option Nat :=
  digits.foldlM (fun n d => (Json.hexValue? d).map (16 * n + ·)) 0

/-- A character written as itself, or as an escape with four or eight digits. -/
inductive Spelled (accepts : Char → Bool) : List Char → Prop
  | itself {c} (h : accepts c = true) : Spelled accepts [c]
  | short {c digits} (h : accepts c = true) (hl : digits.length = 4)
      (hv : hexNumber? digits = some c.toNat) : Spelled accepts ('\\' :: 'u' :: digits)
  | long {c digits} (h : accepts c = true) (hl : digits.length = 8)
      (hv : hexNumber? digits = some c.toNat) : Spelled accepts ('\\' :: 'U' :: digits)

/-- The words that are no identifiers without a mark. -/
def reserved : List String :=
  ["abstract", "as", "base", "bool", "break", "byte", "case", "catch", "char", "checked", "class",
    "const", "continue", "decimal", "default", "delegate", "do", "double", "else", "enum", "event",
    "explicit", "extern", "false", "finally", "fixed", "float", "for", "foreach", "goto", "if",
    "implicit", "in", "int", "interface", "internal", "is", "lock", "long", "namespace", "new",
    "null", "object", "operator", "out", "override", "params", "private", "protected", "public",
    "readonly", "ref", "return", "sbyte", "sealed", "short", "sizeof", "stackalloc", "static",
    "string", "struct", "switch", "this", "throw", "true", "try", "typeof", "uint", "ulong",
    "unchecked", "unsafe", "ushort", "using", "virtual", "void", "volatile", "while"]

namespace Alphabet

/-- A word: what an identifier without a mark or a reserved word looks like. -/
inductive Word (a : Alphabet) : List Char → Prop
  | first {text} (h : Spelled a.begins text) : Word a text
  | further {text more} (ht : Word a text) (hm : Spelled a.continues more) : Word a (text ++ more)

/-- An identifier without a mark. -/
def Identifier (a : Alphabet) (name : String) : Prop :=
  a.Word name.toList ∧ name ∉ reserved

/-- An identifier, without a mark or verbatim: any word with the mark in front. -/
def Token (a : Alphabet) (name : String) : Prop :=
  a.Identifier name ∨ ∃ rest, name.toList = '@' :: rest ∧ a.Word rest

end Alphabet

theorem Spelled.mono {accepts more : Char → Bool} (h : ∀ c, accepts c = true → more c = true)
    {text : List Char} (ht : Spelled accepts text) : Spelled more text := by
  cases ht with
  | itself hc => exact .itself (h _ hc)
  | short hc hl hv => exact .short (h _ hc) hl hv
  | long hc hl hv => exact .long (h _ hc) hl hv

theorem Spelled.ne_nil {accepts : Char → Bool} {text : List Char} (h : Spelled accepts text) :
    text ≠ [] := by
  cases h <;> exact List.cons_ne_nil _ _

/-! ### What does not occur in a word -/

theorem harmless_of_range {c : Char} (h : 0x2E ≤ c.toNat ∧ c.toNat ≤ 0x7E) (hmark : c ≠ '@') :
    Harmless c := by
  refine ⟨hmark, ?_⟩
  simp only [Text.isLineEnd, Bool.or_eq_false_iff, Bool.and_eq_false_iff, decide_eq_false_iff_not]
  omega

theorem hexValue?_harmless {d : Char} {v : Nat} (h : Json.hexValue? d = some v) : Harmless d := by
  have hmark : d ≠ '@' := by
    rintro rfl
    have hnone : Json.hexValue? '@' = none := by decide
    rw [hnone] at h
    cases h
  refine harmless_of_range ?_ hmark
  simp only [Json.hexValue?, Bool.and_eq_true, decide_eq_true_eq, Char.le_def,
    UInt32.le_iff_toNat_le, Char.toNat_val, Char.reduceToNat] at h
  split at h
  · omega
  · split at h
    · omega
    · split at h
      · omega
      · cases h

theorem hexNumber?_harmless {digits : List Char} {n : Nat} (h : hexNumber? digits = some n) :
    ∀ d ∈ digits, Harmless d := by
  have hall : ∀ (digits : List Char) (start : Nat),
      digits.foldlM (fun n d => (Json.hexValue? d).map (16 * n + ·)) start = some n →
      ∀ d ∈ digits, Harmless d := by
    intro digits
    induction digits with
    | nil => exact fun _ _ => List.forall_mem_nil _
    | cons d digits ih =>
      intro start hrun
      rw [List.foldlM_cons] at hrun
      obtain ⟨next, hd, hrest⟩ := Option.bind_eq_some_iff.mp hrun
      obtain ⟨v, hv, -⟩ := Option.map_eq_some_iff.mp hd
      exact List.forall_mem_cons.mpr ⟨hexValue?_harmless hv, ih next hrest⟩
  exact hall digits 0 h

theorem Spelled.harmless {accepts : Char → Bool} (h : ∀ c, accepts c = true → Harmless c)
    {text : List Char} (ht : Spelled accepts text) : ∀ c ∈ text, Harmless c := by
  cases ht with
  | itself hc => exact List.forall_mem_singleton.mpr (h _ hc)
  | short hc hl hv =>
    exact List.forall_mem_cons.mpr ⟨by decide, List.forall_mem_cons.mpr ⟨by decide,
      hexNumber?_harmless hv⟩⟩
  | long hc hl hv =>
    exact List.forall_mem_cons.mpr ⟨by decide, List.forall_mem_cons.mpr ⟨by decide,
      hexNumber?_harmless hv⟩⟩

namespace Alphabet

variable {a : Alphabet} {text more : List Char}

theorem Word.harmless (h : a.Word text) : ∀ c ∈ text, Harmless c := by
  induction h with
  | first h => exact (h.mono a.continues_of_begins).harmless a.harmless
  | further ht hm ih => exact List.forall_mem_append.mpr ⟨ih, hm.harmless a.harmless⟩

theorem Word.ne_nil (h : a.Word text) : text ≠ [] := by
  induction h with
  | first h => exact h.ne_nil
  | further ht hm ih => exact List.append_ne_nil_of_left_ne_nil ih _

/-- Two words put together are a word. -/
theorem Word.append (h : a.Word text) (hm : a.Word more) : a.Word (text ++ more) := by
  induction hm with
  | first hm => exact .further h (hm.mono a.continues_of_begins)
  | further ht hm ih =>
    rw [← List.append_assoc]
    exact .further ih hm

theorem Word.of_chars {c : Char} {cs : List Char} (hc : a.begins c = true)
    (hcs : cs.all a.continues = true) : a.Word (c :: cs) := by
  induction cs using List.reverseRecOn with
  | nil => exact .first (.itself hc)
  | append_singleton cs d ih =>
    rw [List.all_append, Bool.and_eq_true] at hcs
    exact .further (ih hcs.1) (.itself (by simpa using hcs.2))

theorem Token.harmless {name : String} (h : a.Token name) :
    ∀ c ∈ name.toList, Text.isLineEnd (.char c) = false := by
  rcases h with hname | ⟨rest, hlist, hword⟩
  · exact fun c hc => (hname.1.harmless c hc).2
  · rw [hlist]
    exact List.forall_mem_cons.mpr ⟨by decide, fun c hc => (hword.harmless c hc).2⟩

/-- **A prefix in front of an identifier gives one, unless the identifier is verbatim or both
together are a reserved word.** -/
theorem token_append_iff {start name : String} (hs : a.Identifier start) (hn : a.Token name) :
    a.Token (start ++ name) ↔ Symbols.Unmarked name ∧ start ++ name ∉ reserved := by
  have hmark : '@' ∉ start.toList := fun hmem => (hs.1.harmless _ hmem).1 rfl
  constructor
  · rintro (⟨hword, hfree⟩ | ⟨rest, hlist, -⟩)
    · refine ⟨fun hhead => ?_, hfree⟩
      have hmem : '@' ∈ (start ++ name).toList := by
        rw [String.toList_append]
        exact List.mem_append_right _ (List.mem_of_mem_head? hhead)
      exact (hword.harmless _ hmem).1 rfl
    · -- the mark would have to stand in front of the prefix
      rw [String.toList_append] at hlist
      obtain ⟨c, cs, hcons⟩ := List.exists_cons_of_ne_nil hs.1.ne_nil
      rw [hcons, List.cons_append] at hlist
      rw [hcons, (List.cons_eq_cons.mp hlist).1] at hmark
      exact absurd List.mem_cons_self hmark
  · rintro ⟨hunmarked, hfree⟩
    rcases hn with hname | ⟨rest, hlist, -⟩
    · refine .inl ⟨?_, hfree⟩
      rw [String.toList_append]
      exact hs.1.append hname.1
    · exact absurd (by rw [hlist]; rfl) hunmarked

end Alphabet

end Lexical

/-! ## Headers of methods -/

namespace Render

/-- What a line has after its margin. -/
def unindented (line : CodeText) : CodeText :=
  line.dropWhile (· = .char ' ')

/-- The lines with which private methods begin, without their margins. -/
def headersAmong (ls : List CodeText) : List CodeText :=
  (ls.map unindented).filter fun line => ofString "private void " <+: line

theorem headersAmong_append (ls more : List CodeText) :
    headersAmong (ls ++ more) = headersAmong ls ++ headersAmong more := by
  rw [headersAmong, List.map_append, List.filter_append]
  rfl

theorem unindented_append {start : CodeText} (h : unindented start ≠ []) (more : CodeText) :
    unindented (start ++ more) = unindented start ++ more := by
  rw [unindented, List.dropWhile_append, if_neg (by rwa [List.isEmpty_iff])]
  rfl

theorem unindented_indented (line : CodeText) :
    unindented (Text.indented line) = unindented line := by
  rw [Text.indented]
  split
  · rfl
  · have hblank : unindented Text.margin = [] := by decide
    rw [unindented, List.dropWhile_append, ← unindented, hblank]
    rfl

theorem headersAmong_indented (ls : List CodeText) :
    headersAmong (ls.map Text.indented) = headersAmong ls := by
  rw [headersAmong, List.map_map, headersAmong]
  congr 2
  exact funext unindented_indented

/-- A line that begins with something else is no header. -/
theorem headersAmong_other {start : CodeText} (more : CodeText) (ls : List CodeText)
    (h : unindented start ≠ [] ∧ ¬ofString "private void " <+: unindented start ∧
      ¬unindented start <+: ofString "private void ") :
    headersAmong ((start ++ more) :: ls) = headersAmong ls := by
  obtain ⟨hne, hlonger, hshorter⟩ := h
  have hother : ¬ofString "private void " <+: unindented start ++ more := by
    intro hword
    rcases List.prefix_or_prefix_of_prefix hword (List.prefix_append _ _) with hl | hs
    · exact hlonger hl
    · exact hshorter hs
  rw [headersAmong, List.map_cons, unindented_append hne,
    List.filter_cons_of_neg (by simpa using hother)]
  rfl

theorem headersAmong_methodLines (start field : CodeText) :
    headersAmong (methodLines start field) =
      [ofString "private void " ++ start ++ field ++ ofString "()"] := by
  have hstatement : headersAmong (methodLines start field).tail = [] := by
    have hopen : headersAmong [ofString "    \x7b"] = [] := by decide
    have hclose : headersAmong [ofString "    \x7d"] = [] := by decide
    rw [methodLines, List.tail_cons, ← List.singleton_append, headersAmong_append, hopen,
      List.nil_append]
    simp only [List.append_assoc]
    rw [headersAmong_other _ _ (by decide), hclose]
  have hmargin : unindented (ofString "    private void ") = ofString "private void " := by decide
  have hheader : unindented (ofString "    private void " ++ (start ++ (field ++ ofString "()"))) =
      ofString "private void " ++ (start ++ (field ++ ofString "()")) := by
    rw [unindented_append (by decide), hmargin]
  have hfirst : headersAmong [ofString "    private void " ++ start ++ field ++ ofString "()"] =
      [ofString "private void " ++ start ++ field ++ ofString "()"] := by
    simp only [headersAmong, List.map_singleton, List.append_assoc, hheader]
    exact List.filter_cons_of_pos (by simp)
  calc headersAmong (methodLines start field)
      = headersAmong [ofString "    private void " ++ start ++ field ++ ofString "()"] ++
          headersAmong (methodLines start field).tail := headersAmong_append [_] _
    _ = [ofString "private void " ++ start ++ field ++ ofString "()"] := by
        rw [hstatement, List.append_nil, hfirst]

theorem headersAmong_intercalate (blocks : List (List CodeText)) :
    headersAmong (List.intercalate [[]] blocks) = blocks.flatMap headersAmong := by
  induction blocks with
  | nil => rfl
  | cons block rest ih =>
    cases rest with
    | nil => rw [List.intercalate_singleton, List.flatMap_singleton]
    | cons next rest =>
      have hempty : headersAmong [[]] = [] := by decide
      rw [List.intercalate_cons_cons, headersAmong_append, headersAmong_append, hempty,
        List.append_nil, ih]
      exact List.flatMap_cons.symm

theorem headersAmong_braces (ls : List CodeText) :
    headersAmong (ofString "\x7b" :: (ls ++ [ofString "\x7d"])) = headersAmong ls := by
  have hopen : headersAmong [ofString "\x7b"] = [] := by decide
  have hclose : headersAmong [ofString "\x7d"] = [] := by decide
  rw [← List.singleton_append, headersAmong_append, headersAmong_append, hopen, hclose,
    List.nil_append, List.append_nil]

theorem headersAmong_typeLines (header start : CodeText) (fields : List CodeText) :
    headersAmong (typeLines (ofString "partial " ++ header) start fields) =
      fields.map fun field => ofString "private void " ++ start ++ field ++ ofString "()" := by
  have hmethods : (fields.map (methodLines start)).flatMap headersAmong =
      fields.map fun field => ofString "private void " ++ start ++ field ++ ofString "()" := by
    rw [List.flatMap_map, ← List.flatMap_pure_eq_map]
    exact congrArg (fields.flatMap ·) (funext (headersAmong_methodLines start))
  rw [typeLines, headersAmong_other _ _ (by decide), headersAmong_braces, headersAmong_intercalate,
    hmethods]

/-- Around the type there are no headers. -/
theorem headersAmong_fragmentLines (body : List CodeText) (home : CodeText) {comment : CodeText}
    (h : headersAmong [comment] = []) :
    headersAmong (fragmentLines body home comment) = headersAmong body := by
  have hcomment : headersAmong (if comment.isEmpty then [] else [comment]) = [] := by
    split
    · rfl
    · exact h
  have husing : headersAmong [ofString "using System;", []] = [] := by decide
  have hinside : headersAmong (if home.isEmpty then body
      else (ofString "namespace " ++ home) :: ofString "\x7b" ::
        (body.map Text.indented ++ [ofString "\x7d"])) = headersAmong body := by
    split
    · rfl
    · rw [headersAmong_other _ _ (by decide), headersAmong_braces, headersAmong_indented]
  have hsplit : ∀ ls : List CodeText, ofString "using System;" :: [] :: ls =
      [ofString "using System;", []] ++ ls := fun _ => rfl
  rw [fragmentLines, headersAmong_append, hcomment, hsplit, headersAmong_append, husing, hinside]
  rfl

end Render

theorem TypeHeader.text_partial (h : TypeHeader) :
    ∃ rest, ofString h.text = ofString "partial " ++ rest := by
  refine ⟨ofString (h.kind.keyword ++ " " ++ h.path.name ++
    if h.parameters.isEmpty then "" else "<" ++ ", ".intercalate h.parameters ++ ">"), ?_⟩
  rw [TypeHeader.text, ← Text.CodeText.ofString_append]
  simp only [String.append_assoc]

theorem unbroken_ofString {name : String} :
    Unbroken (ofString name) ↔ ∀ c ∈ name.toList, Text.isLineEnd (.char c) = false :=
  List.forall_mem_map

namespace Settings

open Lexical

theorem commentLine_plain (s : Settings) :
    Render.headersAmong [ofString s.commentLine] = [] ∧ Unbroken (ofString s.commentLine) := by
  rw [commentLine]
  split
  · decide
  · decide

/-- **Every field gets a method, named by the prefix and the field. The name is an identifier
exactly if the field is not verbatim and the two together are no reserved word.** -/
theorem method_names_valid_iff (a : Alphabet) (s : Settings) (h : TypeHeader)
    (fields : List String) (key start : String) (htop : h.path.isTopLevel = true)
    (hsetting : s.methodPrefix.asText = ofString start) (hstart : a.Identifier start)
    (hfields : ∀ field ∈ fields, a.Token field) (hheader : Unbroken (ofString h.text))
    (hhome : Unbroken (ofString h.path.home.display)) :
    ∃ fragment, s.emitMethods h fields key = some fragment ∧
      Render.headersAmong (Text.lines fragment.text) =
        (fields.map fun field => ofString ("private void " ++ (start ++ field) ++ "()")) ∧
      ∀ field ∈ fields, a.Token (start ++ field) ↔
        Symbols.Unmarked field ∧ start ++ field ∉ reserved := by
  refine ⟨_, if_pos htop, ?_, fun field hfield =>
    Alphabet.token_append_iff hstart (hfields field hfield)⟩
  have hs : Unbroken (ofString start) :=
    unbroken_ofString.mpr (Alphabet.Token.harmless (.inl hstart))
  have hf : ∀ field ∈ fields.map ofString, Unbroken field :=
    List.forall_mem_map.mpr fun field hfield =>
      unbroken_ofString.mpr (hfields field hfield).harmless
  obtain ⟨hnone, hcomment⟩ := commentLine_plain s
  obtain ⟨rest, htext⟩ := h.text_partial
  have hne : ofString h.text ≠ [] := by
    rw [htext]
    exact List.append_ne_nil_of_left_ne_nil (by decide) _
  rw [hsetting, Render.lines_printMethods hne hheader hs hf hhome hcomment,
    Render.headersAmong_fragmentLines _ _ hnone, htext, Render.headersAmong_typeLines, List.map_map]
  refine List.map_congr_left fun field _ => ?_
  simp only [Function.comp_apply, Text.CodeText.ofString_append, List.append_assoc]

end Settings

/-! ## Names that are valid and names that are not -/

/-- The letters and digits of ASCII, and the underscore. -/
def Lexical.Alphabet.ascii : Lexical.Alphabet where
  begins c := c.isAlpha || c = '_'
  continues c := c.isAlphanum || c = '_'
  continues_of_begins c h := by
    delta Char.isAlphanum
    simp only [Bool.or_eq_true] at h ⊢
    exact h.imp_left .inl
  harmless c h := by
    have hmark : c ≠ '@' := by
      rintro rfl
      exact absurd h (by decide)
    refine harmless_of_range ?_ hmark
    delta Char.isAlphanum Char.isAlpha Char.isUpper Char.isLower Char.isDigit at h
    simp only [Bool.or_eq_true, Bool.and_eq_true, decide_eq_true_eq, ge_iff_le,
      UInt32.le_iff_toNat_le, Char.toNat_val, Char.reduceToNat] at h
    rcases h with h | rfl
    · omega
    · decide

namespace Sample

/-- A generic structure in a namespace. -/
def boxHeader : TypeHeader :=
  ⟨.top (.child (.child .global "Data") "Boxes") ⟨"Box", 1⟩, .structType, ["T"]⟩

/-- A class outside of all namespaces. -/
def plainHeader : TypeHeader :=
  ⟨.top .global ⟨"C", 0⟩, .classType, []⟩

/-- What the lines with the names of the methods are, for a prefix and some fields. -/
def headers (start : String) (fields : List String) : Option (List CodeText) :=
  let s : Settings := { Settings.default with methodPrefix := .ofString start }
  (s.emitMethods plainHeader fields "C.Printables").map fun fragment =>
    Render.headersAmong (Text.lines fragment.text)

end Sample

open Lexical

theorem Sample.print_identifier : Alphabet.ascii.Identifier "Print" :=
  ⟨.of_chars (by decide) (by decide), by decide⟩

theorem Sample.event_token : Alphabet.ascii.Token "@event" :=
  .inr ⟨"event".toList, by decide, .of_chars (by decide) (by decide)⟩

/-- Of two fields of a structure, the one without a mark gets a valid name. -/
theorem method_names_of_box :
    Alphabet.ascii.Identifier "Print" ∧ Alphabet.ascii.Token "x" ∧ Alphabet.ascii.Token "@event" ∧
    ∃ fragment, Settings.default.emitMethods Sample.boxHeader ["x", "@event"] "Box" =
        some fragment ∧
      Render.headersAmong (Text.lines fragment.text) =
        [ofString "private void Printx()", ofString "private void Print@event()"] ∧
      Alphabet.ascii.Token "Printx" ∧ ¬Alphabet.ascii.Token "Print@event" := by
  have hx : Alphabet.ascii.Token "x" := .inl ⟨.of_chars (by decide) (by decide), by decide⟩
  have hfields : ∀ field ∈ ["x", "@event"], Alphabet.ascii.Token field := by
    simpa using ⟨hx, Sample.event_token⟩
  obtain ⟨fragment, hemit, hheaders, hvalid⟩ :=
    Settings.method_names_valid_iff Alphabet.ascii Settings.default Sample.boxHeader ["x", "@event"]
      "Box" "Print" (by decide) (by decide) Sample.print_identifier hfields (by decide) (by decide)
  refine ⟨Sample.print_identifier, hx, Sample.event_token, fragment, hemit, hheaders,
    (hvalid "x" (by decide)).mpr (by decide), fun htoken => ?_⟩
  exact absurd ((hvalid "@event" (by decide)).mp htoken).1 (by decide)

/-- Both a verbatim field and a field that completes a reserved word get a method whose name is no
identifier. -/
theorem method_names_invalid :
    (Alphabet.ascii.Identifier "Print" ∧ Alphabet.ascii.Token "@event" ∧
      Sample.headers "Print" ["@event"] = some [ofString "private void Print@event()"] ∧
      ¬Alphabet.ascii.Token "Print@event") ∧
    Alphabet.ascii.Identifier "i" ∧ Alphabet.ascii.Token "f" ∧
      Sample.headers "i" ["f"] = some [ofString "private void if()"] ∧
      ¬Alphabet.ascii.Token "if" := by
  have hi : Alphabet.ascii.Identifier "i" := ⟨.of_chars (by decide) (by decide), by decide⟩
  have hf : Alphabet.ascii.Token "f" := .inl ⟨.of_chars (by decide) (by decide), by decide⟩
  refine ⟨⟨Sample.print_identifier, Sample.event_token, by decide +kernel, fun htoken => ?_⟩,
    hi, hf, by decide +kernel, fun htoken => ?_⟩
  · have hunmarked :=
      ((Alphabet.token_append_iff Sample.print_identifier Sample.event_token).mp htoken).1
    exact absurd hunmarked (by decide)
  · exact absurd ((Alphabet.token_append_iff hi hf).mp htoken).2 (by decide)

end PrintGen
