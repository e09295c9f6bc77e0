import PrintGen.Command.Arguments
import PrintGen.Disk.Collect
import PrintGen.Disk.Write
import PrintGen.Generate
import PrintGen.Json.Reader
import PrintGen.Text.ControlSequence

/-!
# The command

One run of the command on a disk: the arguments are checked, settings are read, sources are
collected, and the fragments are listed or written. What the run prints and how it ends is part of
the result. All that the command prints itself is free of control sequences; records are shown as
they are.
-/

namespace PrintGen.Command

open Syntax

/-- How texts are parsed: sources by their path, generated texts by their fragment. -/
structure Grammar where
  source : String → String → Parsed
  fragment : Fragment → Parsed

/-- The result of a run. A fault that the command does not report itself is kept. -/
structure Outcome where
  exit : Nat
  stdout : String
  stderr : String
  fault : Option Fault
  disk : Disk

/-- Lines of output, each ended by a line feed. -/
def printed (ls : List String) : String :=
  String.join (ls.map (· ++ "\n"))

def usageLine : String :=
  "Usage: printable-fields [OPTIONS] PATHS..."

/-- What the command prints before a complaint about its use. -/
def usage : List String :=
  [usageLine, "Try 'printable-fields --help' for help.", ""]

def helpLines : List String :=
  [usageLine,
   "",
   "Options:",
   "  -o, --output DIRECTORY",
   "  -c, --config FILE",
   "  --force                 Overwrite existing generated files",
   "  --list                  Print fragment keys instead of writing files",
   "  -v, --verbose           Enable debug logging",
   "  --help                  Show this message and exit."]

inductive UsageError where
  | argument (e : ArgumentError)
  | missingPaths
  | pathMissing (path : String)
  | outputIsFile (path : String)
  | configMissing (path : String)
  | configIsDirectory (path : String)
  | missingOutput
  | noSources
deriving DecidableEq, Repr

def UsageError.message : UsageError → String
  | argument e => e.message
  | missingPaths => "Missing argument 'PATHS...'."
  | pathMissing path =>
    "Invalid value for 'PATHS...': Path " ++ Text.quoted path ++ " does not exist."
  | outputIsFile path =>
    "Invalid value for '--output' / '-o': Directory " ++ Text.quoted path ++ " is a file."
  | configMissing path =>
    "Invalid value for '--config' / '-c': File " ++ Text.quoted path ++ " does not exist."
  | configIsDirectory path =>
    "Invalid value for '--config' / '-c': File " ++ Text.quoted path ++ " is a directory."
  | missingOutput => "Missing option '--output' / '-o' (or use --list)"
  | noSources => "No .cs files found"

/-- Whether an error is reported with the usage. One about the value of an option is not. -/
def UsageError.showsUsage : UsageError → Bool
  | argument (.missingValue _) => false
  | argument (.unexpectedValue _) => false
  | _ => true

def UsageError.lines (e : UsageError) : List String :=
  (if e.showsUsage then usage else []) ++ [Text.plain ("Error: " ++ e.message)]

/-- Where a path given on the command line leads, with all double dots resolved. -/
def absolute (d : Disk) (path : String) : DiskPath :=
  (DiskPath.ofText path).resolve d.current

/-- Checks the value of one option against the disk. -/
def checkOption (d : Disk) (a : Arguments) (o : CommandOption) : Except UsageError Unit :=
  let value := (a.value? o).getD ""
  match o, d.find? (absolute d value) with
  | .output, some (.file _) => .error (.outputIsFile value)
  | .config, none => .error (.configMissing value)
  | .config, some .directory => .error (.configIsDirectory value)
  | _, _ => .ok ()

/-- Checks the arguments against the disk: the options given in order, then the paths. -/
def checkArguments (d : Disk) (a : Arguments) : Except UsageError Unit := do
  a.options.forM (checkOption d a)
  if a.paths.isEmpty then throw .missingPaths
  a.paths.forM fun path =>
    if (d.find? (absolute d path)).isNone then throw (.pathMissing path) else pure ()

/-- Whether the command reports a fault itself. -/
def isReported : Fault → Bool
  | .syntaxErrors _ _ _ => true
  | .noTypeDefinition => true
  | .noUsing => true
  | .emptyFragment _ => true
  | .duplicateKey _ => true
  | .outputExists _ => true
  | .isDirectory _ => true
  | .notDirectory _ => true
  | .fileExists _ => true
  | .noSuchFile _ => true
  | _ => false

def readSettingsFile (d : Disk) (p : DiskPath) : Except Fault Settings := do
  let text ← d.readText p
  match Json.read text with
  | .ok value => Settings.ofJson value
  | .error .malformed => throw .settingsNotJson
  | .error (.longInteger digits) => throw (.longInteger digits)
  | .error .tooDeep => throw .settingsTooDeep

def readSettings (d : Disk) (a : Arguments) : Except Fault Settings := do
  let settings ←
    match a.value? .config with
    | none => pure Settings.default
    | some path => readSettingsFile d (absolute d path)
  if a.has .force then settings.force else return settings

def readSources (g : Grammar) (d : Disk) (paths : List DiskPath) : Except Fault (List Source) :=
  paths.mapM fun p => do
    let text ← d.readText p
    return ⟨p.text, text, g.source p.text text⟩

/-- The end of a run after its sources were generated: list the keys, or write the fragments. -/
def finish (g : Grammar) (a : Arguments) (settings : Settings) (directory : DiskPath)
    (generated : Generated) : Filing (List String) :=
  if a.has .list then return generated.keys
  else do
    let output ← Filing.ofExcept settings.output.forWriting
    let written ← writeFragments g.fragment directory output generated.fragments
    return ["Generated " ++ toString written.length ++ " files in " ++ directory.text]

/-- The lines of the records that a run shows. -/
def shownRecords (a : Arguments) (trace : Trace) : List String :=
  trace.linesFrom (if a.has .verbose then .debug else .warning)

/-- How a run ends at a fault, given what it printed to the error stream before. -/
def stopped (d : Disk) (stderr : List String) (fault : Fault) : Outcome :=
  if isReported fault then ⟨1, "", printed (stderr ++ [Text.plain ("Error: " ++ fault.message)]), none, d⟩
  else ⟨1, "", printed stderr, some fault, d⟩

/-- Generates from the given sources and finishes the run. -/
def runSources (g : Grammar) (d : Disk) (a : Arguments) (settings : Settings)
    (sources : List DiskPath) : Outcome :=
  match readSources g d sources with
  | .error fault => stopped d [] fault
  | .ok sources =>
    match generateSources settings sources [] with
    | .error fault trace => stopped d (shownRecords a trace) fault
    | .ok generated trace =>
      let before := shownRecords a trace ++
        generated.diagnostics.map fun diagnostic => Text.plain diagnostic.text
      let directory := absolute d ((a.value? .output).getD "")
      match finish g a settings directory generated ⟨d, []⟩ with
      | .error fault w => stopped w.disk (before ++ shownRecords a w.trace) fault
      | .ok stdout w =>
        ⟨0, printed (stdout.map Text.plain), printed (before ++ shownRecords a w.trace), none, w.disk⟩

/-- How a run ends that was not used right. -/
def misused (d : Disk) (e : UsageError) : Outcome :=
  ⟨2, "", printed e.lines, none, d⟩

def runArguments (g : Grammar) (d : Disk) (a : Arguments) : Outcome :=
  match checkArguments d a with
  | .error e => misused d e
  | .ok () =>
    match readSettings d a with
    | .error fault => ⟨1, "", "", some fault, d⟩
    | .ok settings =>
      if !a.has .output && !a.has .list then misused d .missingOutput
      else
        match d.collect (a.paths.map (absolute d)) with
        | [] => misused d .noSources
        | sources => runSources g d a settings sources

/-- Runs the command. A request for help comes before all checks. -/
def run (g : Grammar) (d : Disk) (arguments : List String) : Outcome :=
  match parseArguments arguments with
  | .error e => misused d (.argument e)
  | .ok a =>
    if a.has .help then ⟨0, printed helpLines, "", none, d⟩
    else runArguments g d a

end PrintGen.Command
