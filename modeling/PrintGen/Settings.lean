import PrintGen.Fault
import PrintGen.Text.Split

/-!
# Settings

The options of a generation pass, as read from a JSON object. Options keep whatever value they are
given; each use decides what to make of it. Unknown keys are ignored, with the exception of the
reserved keys, which reach into the settings themselves: one replaces all stored options at once,
one replaces the writer of settings, and two cannot be set.
-/

namespace PrintGen

open Text (CodeText)

/-- What to do about output files that exist already. -/
inductive OutputMode where
  | errorIfExists
  | force
deriving DecidableEq, Repr

def OutputMode.name : OutputMode → String
  | errorIfExists => "error"
  | force => "force"

def OutputMode.ofJson (value : Json) : Except Fault OutputMode :=
  match value.string? with
  | some "error" => .ok .errorIfExists
  | some "force" => .ok .force
  | _ => .error (.unknownMode value)

/-- The options for writing files. -/
structure OutputSettings where
  mode : OutputMode
  validate : Bool
deriving DecidableEq, Repr

namespace OutputSettings

/-- Existing files are kept, and texts are checked before they are written. -/
def default : OutputSettings :=
  ⟨.errorIfExists, true⟩

def keys : List String :=
  ["mode", "validate_before_write"]

/-- Reads the options from the members of an object. -/
def ofMembers (members : List (CodeText × Json)) : Except Fault OutputSettings := do
  let mode ←
    match Json.member? "mode" members with
    | some value => OutputMode.ofJson value
    | none => pure default.mode
  let validate :=
    match Json.member? "validate_before_write" members with
    | some value => value.truthy
    | none => default.validate
  return ⟨mode, validate⟩

/-- Whether a value that is no object seems to have an option: an array by an item, a text by a
part of it. -/
def mentions (value : Json) (key : String) : Bool :=
  match value with
  | .arr items => items.any fun item => item.string? = some key
  | .str text => Text.occursIn (CodeText.ofString key) text
  | _ => false

/-- Reads the options. An array or a text that mentions no option leaves the defaults. -/
def ofJson : Json → Except Fault OutputSettings
  | .obj members => ofMembers members
  | .arr items =>
    if keys.any (mentions (.arr items)) then .error .outputNotObject else .ok default
  | .str text => if keys.any (mentions (.str text)) then .error .outputNotObject else .ok default
  | _ => .error .outputNotObject

def toJson (o : OutputSettings) : Json :=
  .ofMembers [("mode", .ofString o.mode.name), ("validate_before_write", .bool o.validate)]

end OutputSettings

/-- What settings hold as their output options: options that were read, or, once the stored options
were replaced by others, whatever value these had for them, or nothing. -/
inductive OutputPart where
  | options (o : OutputSettings)
  | value (v : Json)
  | absent

namespace OutputPart

/-- The options that were read. -/
def options? : OutputPart → Except Fault OutputSettings
  | options o => .ok o
  | _ => .error .outputLost

/-- The options for writing files. A value in their place that counts as false stands for the
defaults. -/
def forWriting : OutputPart → Except Fault OutputSettings
  | options o => .ok o
  | value v => if v.truthy then .error .outputLost else .ok .default
  | absent => .error .outputLost

def same : OutputPart → OutputPart → Bool
  | options o, options p => o == p
  | value v, value w => v.same w
  | absent, absent => true
  | _, _ => false

end OutputPart

/-- The options of a generation pass. The settings are sealed once their writer was replaced by a
value. -/
structure Settings where
  methodPrefix : Json
  stubName : Json
  comment : Json
  reportNested : Json
  strict : Json
  output : OutputPart
  isSealed : Bool

namespace Settings

def default : Settings where
  methodPrefix := .ofString "Print"
  stubName := .ofString "PrintAllFields"
  comment := .bool true
  reportNested := .bool true
  strict := .bool false
  output := .options .default
  isSealed := false

/-- Sets one of the plain options; any other key changes nothing. -/
def put (s : Settings) (key : String) (value : Json) : Settings :=
  match key with
  | "print_method_prefix" => { s with methodPrefix := value }
  | "stub_method_name" => { s with stubName := value }
  | "add_generation_comment" => { s with comment := value }
  | "report_unsupported_types" => { s with reportNested := value }
  | "strict_parse" => { s with strict := value }
  | "to_dict" => { s with isSealed := true }
  | _ => s

/-- Stores one member without reading it. -/
def store (s : Settings) : CodeText × Json → Settings
  | (key, value) =>
    match key.string? with
    | some "output" => { s with output := .value value }
    | some key => s.put key value
    | none => s

/-- The settings whose stored options are exactly the given members. -/
def ofStored (members : List (CodeText × Json)) : Settings :=
  members.foldl store { default with output := .absent }

/-- Applies one member of a settings object. -/
def apply (s : Settings) : CodeText × Json → Except Fault Settings
  | (key, value) =>
    match key.string? with
    | some "output" => do
      let output ← OutputSettings.ofJson value
      return { s with output := .options output }
    | some "__class__" => .error (.reservedKeyType "__class__")
    | some "__weakref__" => .error (.reservedKeyFixed "__weakref__")
    | some "__dict__" =>
      match value with
      | .obj members => .ok (ofStored members)
      | _ => .error (.reservedKeyType "__dict__")
    | some key => .ok (s.put key value)
    | none => .ok s

/-- Reads settings: the members of an object are applied in order. -/
def ofJson : Json → Except Fault Settings
  | .obj members => members.foldlM apply default
  | _ => .error .settingsNotObject

def toJson (s : Settings) : Except Fault Json :=
  if s.isSealed then .error .settingsNotWritable
  else do
    let output ← s.output.options?
    return .ofMembers [("print_method_prefix", s.methodPrefix), ("stub_method_name", s.stubName),
      ("add_generation_comment", s.comment), ("report_unsupported_types", s.reportNested),
      ("strict_parse", s.strict), ("output", output.toJson)]

/-- The settings with overwriting on. -/
def force (s : Settings) : Except Fault Settings := do
  let output ← s.output.options?
  return { s with output := .options { output with mode := .force } }

def same (s t : Settings) : Bool :=
  s.methodPrefix.same t.methodPrefix && s.stubName.same t.stubName && s.comment.same t.comment &&
    s.reportNested.same t.reportNested && s.strict.same t.strict && s.output.same t.output

/-- Whether writing settings out and reading them again gives equal ones. -/
def roundTrips (s : Settings) : Except Fault Bool := do
  let again ← ofJson (← s.toJson)
  return again.same s

end Settings

end PrintGen
