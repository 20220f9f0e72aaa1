import Redeclare.CommandLine.Read
import Redeclare.Error
import Redeclare.Log.Filter
import Redeclare.Method.Form
import Redeclare.Text.Blank
import Redeclare.Transformer.Plan

/-!
# The program

A run from its command line, its environment and the files that it reads to its
exit status and what it prints.  Results go to the output; failures and the log
go elsewhere, so a run that fails prints nothing on the output.
-/

namespace Redeclare

/-- What a run finds around it. -/
structure Surroundings where
  environment : List (String × String)
  file : String → FileState

/-- A log entry. -/
structure LogEntry where
  level : Log.Level
  message : String
  deriving DecidableEq

/-- What a run leaves behind. -/
structure Outcome where
  status : Nat
  output : String := ""
  /-- Why the run failed. -/
  failures : List String := []
  /-- The log entries that are shown. -/
  log : List LogEntry := []

namespace Program

/-- The name of the program and its version. -/
def version : String := "method-transform 0.1.0"

/-- How the program is used, line by line. -/
def usageLines : List String :=
  ["Apply configured method transformers to method tokens",
    "",
    "Usage: method-transform [OPTIONS] <COMMAND>",
    "",
    "Commands:",
    "  apply --owner <OWNER> [--format <FORMAT>] <INPUT>  Transform method tokens read from a file",
    "  show                                               Print the configured transformer",
    "  check                                              Validate the configuration",
    "",
    "Options:",
    "  -c, --config <CONFIG>          Path to configuration file (YAML)",
    "      --log-level <LOG_LEVEL>    Log level (trace, debug, info, warn, error)",
    "      --log-format <LOG_FORMAT>  Log format (text, json)",
    "  -h, --help                     Print help",
    "  -V, --version                  Print version"]

/-- How the program is used. -/
def usage : String := Text.join "\n" usageLines ++ "\n"

/-- The target of the program's own log entries. -/
def target : String := "method_transform"

/-- The filter of a run: the one that the environment sets, or else the one that is asked for. -/
def filter (env : List (String × String)) (level : String) : Log.Filter :=
  match (env.lookup "RUST_LOG").bind Log.Filter.read? with
  | some filter => filter
  | none => Log.Filter.readLenient level

/-- A log entry if the filter shows it. -/
def entry (filter : Log.Filter) (level : Log.Level) (message : String) : List LogEntry :=
  if filter.shows target level then [⟨level, message⟩] else []

/-- The file with the settings of a run. -/
def settingsFile (s : Surroundings) : Option String → Except LoadFault SettingsFile
  | none => .ok .unnamed
  | some path =>
    match s.file path with
    | .missing => .ok (.missing path)
    | .directory => .ok .empty
    | .bytes content =>
      match String.fromUTF8? content with
      | some text => .ok (.text text)
      | none => .error (.other FileFault.notText.message)

/-- The settings of a run. -/
def loadSettings (s : Surroundings) (config : Option String) : Except Error Settings :=
  let loaded := do Settings.load (← settingsFile s config) s.environment
  loaded.mapError .config

/-! ## Commands -/

/-- The text that a run prints for the methods of a file. -/
def printed (settings : Settings) (format : Option OutputFormat) (methods : List Method) : String :=
  let text := (format.getD settings.output.format).render settings.output.pretty
    (.list (methods.map Method.form))
  String.ofList (Text.trimEnd text.toList) ++ "\n"

/-- The methods of a file as they are defined on a type. -/
def transformed (t : Transformer) (owner : String) (tokens : List MethodToken) :
    Except String (List Method) :=
  t.transformAll ⟨owner⟩ (tokens.map fun token => ⟨⟨owner⟩, token⟩)

/-- What is said of settings from whose plan no transformer can be built. -/
def invalidTransformer (e : Error) : Outcome :=
  { status := 1, failures := ["❌ Invalid transformer: " ++ e.display] }

/-- Transforms the tokens of a file. -/
def apply (s : Surroundings) (filter : Log.Filter) (settings : Settings) (owner input : String)
    (format : Option OutputFormat) : Outcome :=
  match settings.plan.compileChecked with
  | .error e => invalidTransformer e
  | .ok t =>
    match MethodToken.load (s.file input) with
    | .error e => { status := 1, failures := ["❌ Failed to read " ++ input ++ ": " ++ e.display] }
    | .ok tokens =>
      let log := entry filter .info "Transforming methods"
      match transformed t owner tokens with
      | .error text => { status := 1, failures := [text], log }
      | .ok methods => { status := 0, output := printed settings format methods, log }

/-- Prints the transformer. -/
def describe (settings : Settings) : Outcome :=
  match settings.plan.compileChecked with
  | .error e => invalidTransformer e
  | .ok t => { status := 0, output := t.display ++ "\n" }

/-- Checks the settings, which have been loaded. -/
def check (settings : Settings) : Outcome :=
  match settings.plan.compileChecked with
  | .error e => { status := 1, failures := ["❌ Validation failed: " ++ e.display] }
  | .ok t =>
    let remark := if t.isNoOp then " (transformer leaves methods unchanged)" else ""
    { status := 0, output := "✅ Configuration valid" ++ remark ++ "\n" }

/-- Runs a command with its settings. -/
def perform (s : Surroundings) (filter : Log.Filter) (settings : Settings) : Command → Outcome
  | .apply owner input format => apply s filter settings owner input format
  | .describe => describe settings
  | .check => check settings

/-- Runs what a command line asks for. -/
def runInvocation (s : Surroundings) (i : Invocation) : Outcome :=
  let filter := filter s.environment i.logLevel
  match loadSettings s i.config with
  | .error e =>
    { status := 1, log := entry filter .error ("Failed to load config: " ++ e.display) }
  | .ok settings => perform s filter settings i.command

/-- What a command line that leads to no run leaves behind. -/
def refuse : UsageFault → Outcome
  | .helpRequested => { status := 0, output := usage }
  | .versionRequested => { status := 0, output := version ++ "\n" }
  | _ => { status := 2, failures := [usage] }

/-- Runs the program. -/
def run (s : Surroundings) (args : List String) : Outcome :=
  match CommandLine.read s.environment args with
  | .error fault => refuse fault
  | .ok invocation => runInvocation s invocation

end Program

end Redeclare
