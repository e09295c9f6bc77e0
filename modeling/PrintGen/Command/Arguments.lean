import PrintGen.Text.Quoted
import PrintGen.Text.Similarity
import PrintGen.Text.Split

/-!
# Command-line arguments

Splitting the arguments into options and paths. Options may stand anywhere; short ones can be
joined, and a value may follow directly. Two dashes end the options, and a single dash is a path.
For a long option that does not exist, similar ones are named.
-/

namespace PrintGen.Command

inductive CommandOption where
  | output
  | config
  | force
  | list
  | verbose
  | help
deriving DecidableEq, Repr

namespace CommandOption

def all : List CommandOption :=
  [output, config, force, list, verbose, help]

def long : CommandOption → String
  | output => "--output"
  | config => "--config"
  | force => "--force"
  | list => "--list"
  | verbose => "--verbose"
  | help => "--help"

def takesValue : CommandOption → Bool
  | output => true
  | config => true
  | _ => false

def ofLong? (spelling : String) : Option CommandOption :=
  all.find? fun o => o.long = spelling

def ofLetter? : Char → Option CommandOption
  | 'o' => some output
  | 'c' => some config
  | 'v' => some verbose
  | _ => none

end CommandOption

inductive ArgumentError where
  | missingValue (spelling : String)
  | unexpectedValue (spelling : String)
  | unknownOption (spelling : String) (similar : List String)
deriving DecidableEq, Repr

/-- The arguments taken apart: the options given, in order, with their values, and the paths. -/
structure Arguments where
  given : List (CommandOption × String)
  paths : List String
deriving DecidableEq, Repr

namespace Arguments

def empty : Arguments :=
  ⟨[], []⟩

def addOption (a : Arguments) (o : CommandOption) (value : String) : Arguments :=
  { a with given := a.given ++ [(o, value)] }

def addPaths (a : Arguments) (paths : List String) : Arguments :=
  { a with paths := a.paths ++ paths }

def has (a : Arguments) (o : CommandOption) : Bool :=
  a.given.any fun g => g.1 = o

/-- The value of an option; of several the last counts. -/
def value? (a : Arguments) (o : CommandOption) : Option String :=
  ((a.given.filter fun g => g.1 = o).getLast?).map Prod.snd

/-- The options given, each once, in order of first appearance. -/
def options (a : Arguments) : List CommandOption :=
  (a.given.map Prod.fst).eraseDups

end Arguments

/-- What a group of short options leaves: the arguments read, and the spelling of an option that
still needs the next argument as its value. -/
def readLetters (a : Arguments) : List Char →
    Except ArgumentError (Arguments × Option (CommandOption × String))
  | [] => .ok (a, none)
  | c :: rest =>
    let spelling := String.ofList ['-', c]
    match CommandOption.ofLetter? c with
    | none => .error (.unknownOption spelling [])
    | some o =>
      if o.takesValue then
        if rest.isEmpty then .ok (a, some (o, spelling))
        else .ok (a.addOption o (String.ofList rest), none)
      else readLetters (a.addOption o "") rest

/-- Reads one argument that begins with a dash and is more than that. -/
def readOption (a : Arguments) (argument : String) :
    Except ArgumentError (Arguments × Option (CommandOption × String)) :=
  let (spelling, value) := Text.cutAt '=' argument.toList
  let spelling := String.ofList spelling
  match CommandOption.ofLong? spelling, value.map String.ofList with
  | some o, some value =>
    if o.takesValue then .ok (a.addOption o value, none) else .error (.unexpectedValue spelling)
  | some o, none =>
    if o.takesValue then .ok (a, some (o, spelling)) else .ok (a.addOption o "", none)
  | none, _ =>
    match argument.toList with
    | '-' :: '-' :: _ =>
      .error (.unknownOption spelling
        (Text.similarWords (CommandOption.all.map CommandOption.long) spelling))
    | _ :: letters => readLetters a letters
    | [] => .ok (a, none)

def readArguments (a : Arguments) : List String → Except ArgumentError Arguments
  | [] => .ok a
  | argument :: rest =>
    if argument = "--" then .ok (a.addPaths rest)
    else if argument.toList.head? = some '-' && argument ≠ "-" then
      match readOption a argument, rest with
      | .error e, _ => .error e
      | .ok (a, none), rest => readArguments a rest
      | .ok (_, some (_, spelling)), [] => .error (.missingValue spelling)
      | .ok (a, some (o, _)), value :: rest => readArguments (a.addOption o value) rest
    else readArguments (a.addPaths [argument]) rest

def parseArguments (arguments : List String) : Except ArgumentError Arguments :=
  readArguments .empty arguments

/-- The words that propose similar options. -/
def proposal : List String → String
  | [] => ""
  | [one] => " Did you mean " ++ Text.quoted one ++ "?"
  | several =>
    " (Did you mean one of: " ++ ", ".intercalate (several.map Text.quoted) ++ "?)"

def ArgumentError.message : ArgumentError → String
  | missingValue spelling => "Option " ++ Text.quoted spelling ++ " requires an argument."
  | unexpectedValue spelling => "Option " ++ Text.quoted spelling ++ " does not take a value."
  | unknownOption spelling similar =>
    "No such option " ++ Text.quoted spelling ++ "." ++ proposal similar

end PrintGen.Command
