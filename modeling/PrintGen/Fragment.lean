import PrintGen.Trace

/-!
# Fragments

Generated texts are registered under keys. A text is never empty and a key is used once.
-/

namespace PrintGen

open Text (CodeText)

/-- A generated text and its key. -/
structure Fragment where
  key : String
  text : CodeText
deriving DecidableEq, Repr

/-- The text of the first fragment with the given key. -/
def Fragment.text? (key : String) (fragments : List Fragment) : Option CodeText :=
  (fragments.find? fun f => f.key = key).map Fragment.text

/-- Registers a text under a key, after the fragments registered so far. -/
def register (fragments : List Fragment) (key : String) (text : Option CodeText) :
    Traced (List Fragment) :=
  match text with
  | none => throw (.emptyFragment key)
  | some text =>
    if text.isEmpty then throw (.emptyFragment key)
    else if fragments.any fun f => f.key = key then throw (.duplicateKey key)
    else do
      report .debug .registering
        ("Registered fragment " ++ key ++ " (" ++ toString text.length ++ " chars)")
      return fragments ++ [⟨key, text⟩]

end PrintGen
