import PrintGen.Json.Value
import PrintGen.Text.Numeral

/-!
# Faults

Everything that can stop a run, one constructor per cause, and the wording of each in one place.
-/

namespace PrintGen

/-- Why a run stopped. -/
inductive Fault where
  /-- A qualified name lacks the part before or after its dot. -/
  | missingNamePart
  /-- A byte range, or the bytes of a file, do not form characters. -/
  | brokenText
  /-- A source has syntax errors and only correct ones are accepted. -/
  | syntaxErrors (path : String) (line : Option Nat) (snippet : String)
  /-- A text about to be written declares no type. -/
  | noTypeDefinition
  /-- A text about to be written has no using directive. -/
  | noUsing
  /-- The part of a metadata name after the backtick is no number. -/
  | badArity (text : String)
  /-- An integer is written with too many digits. -/
  | longInteger (digits : Nat)
  /-- A fragment without text. -/
  | emptyFragment (key : String)
  /-- A second fragment under the same key. -/
  | duplicateKey (key : String)
  /-- Settings that are no object. -/
  | settingsNotObject
  /-- Output settings that cannot hold a member, or have none to take. -/
  | outputNotObject
  /-- An output mode that does not exist. -/
  | unknownMode (value : Json)
  /-- A reserved settings key whose value has the wrong type. -/
  | reservedKeyType (key : String)
  /-- A reserved settings key that cannot be set. -/
  | reservedKeyFixed (key : String)
  /-- Settings whose writer was replaced by a value. -/
  | settingsNotWritable
  /-- Settings that lost their output part. -/
  | outputLost
  /-- A settings file that is no JSON text. -/
  | settingsNotJson
  /-- A text with half of a surrogate pair in it cannot be stored. -/
  | unwritableText
  /-- The values of a settings file are nested too deeply. -/
  | settingsTooDeep
  /-- A target exists with other content, and overwriting is off. -/
  | outputExists (path : String)
  /-- A directory where a file is needed. -/
  | isDirectory (path : String)
  /-- A file where a directory is needed on the way to a path. -/
  | notDirectory (path : String)
  /-- A file stands where a directory is to be made. -/
  | fileExists (path : String)
  /-- Nothing stands at a path. -/
  | noSuchFile (path : String)

/-- The name that messages use for a source: its path, or a stand-in if it has none. -/
def sourceName (path : String) : String :=
  if path = "" then "<source>" else path

def lineText : Option Nat → String
  | some n => toString n
  | none => "None"

def Fault.message : Fault → String
  | missingNamePart => "a name lacks one of its parts"
  | brokenText => "the bytes are not valid text"
  | syntaxErrors path line snippet =>
    "Failed to parse C# code in " ++ sourceName path ++ " at line " ++ lineText line ++
      ": syntax error near '" ++ snippet ++ "'"
  | noTypeDefinition => "Generated C# code has no type definitions"
  | noUsing => "Generated C# code is missing using statements"
  | badArity text =>
    "invalid literal for int() with base 10: " ++
      String.ofList ((Text.quoted text).toList.take 200)
  | longInteger digits =>
    "Exceeds the limit (" ++ toString Text.maxDigits ++
      " digits) for integer string conversion: value has " ++ toString digits ++
      " digits; use sys.set_int_max_str_digits() to increase the limit"
  | emptyFragment key => "Refusing to register empty fragment '" ++ key ++ "'"
  | duplicateKey key => "Fragment key '" ++ key ++ "' is already registered"
  | settingsNotObject => "the settings are not an object"
  | outputNotObject => "the output settings are not an object"
  | unknownMode value => value.shown ++ " is not a valid OutputMode"
  | reservedKeyType key => "the value of " ++ key ++ " has the wrong type"
  | reservedKeyFixed key => key ++ " cannot be set"
  | settingsNotWritable => "the settings cannot be written out"
  | outputLost => "the settings have no output part"
  | settingsNotJson => "the settings file is not JSON"
  | settingsTooDeep => "the settings file is nested too deeply"
  | unwritableText => "the text has half of a surrogate pair in it"
  | outputExists path =>
    "Output file already exists: " ++ path ++ ". Use force mode to overwrite."
  | isDirectory path => "[Errno 21] Is a directory: " ++ Text.quoted path
  | notDirectory path => "[Errno 20] Not a directory: " ++ Text.quoted path
  | fileExists path => "[Errno 17] File exists: " ++ Text.quoted path
  | noSuchFile path => "[Errno 2] No such file or directory: " ++ Text.quoted path

end PrintGen
