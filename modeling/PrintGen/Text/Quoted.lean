import PrintGen.Text.CodePoint
import PrintGen.Text.Printable

/-!
# Quoted text

Names and values inside messages are shown between quotes. The single quote is used unless the text
contains it and no double quote; the quote in use, the backslash and code points that cannot be
shown are escaped.
-/

namespace PrintGen.Text

/-- A lower-case hexadecimal digit. -/
def hexDigit (n : Nat) : Char :=
  if n < 10 then Char.ofNat (0x30 + n) else Char.ofNat (0x57 + n)

/-- The last `width` hexadecimal digits of a number. -/
def hexDigits : Nat → Nat → List Char
  | 0, _ => []
  | width + 1, n => hexDigits width (n / 16) ++ [hexDigit (n % 16)]

/-- The escape with four hexadecimal digits. -/
def shortEscape (n : Nat) : List Char :=
  '\\' :: 'u' :: hexDigits 4 n

/-- The escape of a character that cannot be shown. -/
def escapeCode (c : Char) : List Char :=
  if c.toNat < 0x100 then '\\' :: 'x' :: hexDigits 2 c.toNat
  else if c.toNat < 0x10000 then shortEscape c.toNat
  else '\\' :: 'U' :: hexDigits 8 c.toNat

/-- How one character is written between the given quotes. -/
def quoteChar (quote c : Char) : List Char :=
  if c = quote || c = '\\' then ['\\', c]
  else if c = '\n' then ['\\', 'n']
  else if c = '\r' then ['\\', 'r']
  else if c = '\t' then ['\\', 't']
  else if isPrintable c then [c]
  else escapeCode c

def quotePoint (quote : Char) : CodePoint → List Char
  | .char c => quoteChar quote c
  | .half offset => shortEscape (0xD800 + offset)

/-- The quote that a text is shown in. -/
def quoteFor (text : CodeText) : Char :=
  if text.contains (.char '\x27') && !text.contains (.char '"') then '"' else '\x27'

/-- A text between quotes. -/
def quotedText (text : CodeText) : String :=
  let q := quoteFor text
  String.ofList (q :: text.flatMap (quotePoint q) ++ [q])

def quoted (s : String) : String :=
  quotedText (.ofString s)

end PrintGen.Text
