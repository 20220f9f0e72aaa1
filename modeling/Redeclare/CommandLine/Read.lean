import Redeclare.CommandLine.Basic

/-!
# Reading command lines

Arguments are read one after another.  In front of the command stand options
that every command has; they may also stand behind it, and then count more.
The value of an option is checked when the next argument that is not its value
has been read, and the environment supplies options that are not given.
-/

namespace Redeclare.CommandLine

/-- The part of a command line that an argument stands in. -/
inductive Scope where
  /-- In front of the command. -/
  | top
  | apply
  | describe
  | check
  deriving DecidableEq

/-- What can be given a value. -/
inductive Slot where
  | config
  | logLevel
  | logFormat
  | owner
  | format
  /-- The file with the method tokens. -/
  | input
  deriving DecidableEq

/-- What an argument that begins with a hyphen stands for. -/
inductive Switch where
  | option (slot : Slot)
  | help
  | version

/-- The command with a name. -/
def command? : String → Option Scope
  | "apply" => some .apply
  | "show" => some .describe
  | "check" => some .check
  | _ => none

/-- The switch with a long name. -/
def long? (scope : Scope) : String → Option Switch
  | "config" => some (.option .config)
  | "log-level" => some (.option .logLevel)
  | "log-format" => some (.option .logFormat)
  | "help" => some .help
  | "version" => if scope = .top then some .version else none
  | "owner" => if scope = .apply then some (.option .owner) else none
  | "format" => if scope = .apply then some (.option .format) else none
  | _ => none

/-- The switch with a short name. -/
def short? (scope : Scope) : Char → Option Switch
  | 'c' => some (.option .config)
  | 'h' => some .help
  | 'V' => if scope = .top then some .version else none
  | 'f' => if scope = .apply then some (.option .format) else none
  | _ => none

/-- Whether a value is allowed: paths are not empty, and formats are known. -/
def isAllowed (slot : Slot) (value : String) : Bool :=
  match slot with
  | .config | .input => !value.isEmpty
  | .format => (OutputFormat.ofText? value).isSome
  | .logLevel | .logFormat | .owner => true

/-! ## Arguments -/

/-- How far the arguments of a scope are read. -/
structure Scan where
  /-- The values that are settled. -/
  values : List (Slot × String) := []
  /-- What was given last, and its value if that has been read. -/
  last : Option (Slot × Option String) := none
  /-- Whether the file has been given. -/
  hasInput : Bool := false

namespace Scan

/-- Gives a slot a value, which may be done once. -/
def give (s : Scan) (slot : Slot) (value : String) : Except UsageFault Scan :=
  if (s.values.lookup slot).isSome then .error .repeatedOption
  else if isAllowed slot value then .ok { s with values := (slot, value) :: s.values }
  else .error .invalidValue

/-- Settles what was given last. -/
def settle (s : Scan) : Except UsageFault Scan :=
  match s.last with
  | none => .ok s
  | some (_, none) => .error .invalidValue
  | some (slot, some value) => { s with last := none }.give slot value

/-- Whether the next argument is the value of what was given last. -/
def isWaiting (s : Scan) : Bool :=
  match s.last with
  | some (_, none) => true
  | _ => false

/-- Reads a switch and the value that is attached to it. -/
def readSwitch (s : Scan) (switch : Switch) (attached : Option String) : Except UsageFault Scan := do
  match switch, attached with
  | .option slot, some value => (← s.settle).give slot value
  | .option slot, none => return { ← s.settle with last := some (slot, none) }
  | .help, _ =>
    let _ ← s.settle
    throw .helpRequested
  | .version, _ =>
    let _ ← s.settle
    throw .versionRequested

/-- Reads an argument that begins with two hyphens. -/
def readLong (scope : Scope) (s : Scan) (cs : List Char) : Except UsageFault Scan :=
  let name := cs.takeWhile (· ≠ '=')
  let attached := match cs.drop name.length with
    | _ :: value => some (String.ofList value)
    | [] => none
  match long? scope (String.ofList name), attached with
  | none, _ => .error .unknownArgument
  | some .help, some _ | some .version, some _ => .error .surplusValue
  | some switch, attached => s.readSwitch switch attached

/-- Reads an argument that begins with one hyphen.  Its value may follow at once, with or without
an equals sign. -/
def readShort (scope : Scope) (s : Scan) (c : Char) (rest : List Char) : Except UsageFault Scan :=
  let attached := match rest with
    | [] => none
    | '=' :: value => some (String.ofList value)
    | value => some (String.ofList value)
  match short? scope c with
  | none => .error .unknownArgument
  | some switch => s.readSwitch switch attached

/-- The fault of an argument for which there is no place. -/
def misplaced (scope : Scope) (escaped : Bool) (arg : String) : UsageFault :=
  match scope with
  | .top =>
    if escaped && ((command? arg).isSome || arg == "help") then .unknownArgument else .unknownCommand
  | _ => .unknownArgument

/-- Reads an argument that is no switch and no value of one. -/
def readPlain (scope : Scope) (s : Scan) (escaped : Bool) (arg : String) : Except UsageFault Scan := do
  if scope = .apply && !s.hasInput then
    return { ← s.settle with last := some (.input, some arg), hasInput := true }
  else throw (misplaced scope escaped arg)

/-- Reads an argument. -/
def readArgument (scope : Scope) (s : Scan) (arg : String) : Except UsageFault Scan :=
  match arg.toList with
  | '-' :: '-' :: cs => s.readLong scope cs
  | '-' :: c :: cs => s.readShort scope c cs
  | _ =>
    match s.last with
    | some (slot, none) => .ok { s with last := some (slot, some arg) }
    | _ => s.readPlain scope false arg

end Scan

/-- Help is asked for a command, or for none. -/
def helpFault : List String → UsageFault
  | [] => .helpRequested
  | [name] => if (command? name).isSome || name == "help" then .helpRequested else .unknownCommand
  | _ => .unknownCommand

/-- Reads the arguments behind two hyphens: none of them is a switch. -/
def readEscaped (scope : Scope) (s : Scan) : List String → Except UsageFault Scan
  | [] => .ok s
  | arg :: args => do readEscaped scope (← s.readPlain scope true arg) args

/-- Reads the arguments of a command. -/
def readCommand (scope : Scope) (s : Scan) : List String → Except UsageFault Scan
  | [] => .ok s
  | arg :: args => do
    if arg == "--" then readEscaped scope s args
    else readCommand scope (← s.readArgument scope arg) args

/-- Reads the arguments up to the command: what was read, and the command with its arguments if
there is one. -/
def readTop (s : Scan) : List String → Except UsageFault (Scan × Option (Scope × List String))
  | [] => .ok (s, none)
  | arg :: args => do
    let named := if s.isWaiting then none else command? arg
    match named with
    | some scope => return (s, some (scope, args))
    | none =>
      if arg == "help" && !s.isWaiting then throw (helpFault args)
      else if arg == "--" then return (← readEscaped .top s args, none)
      else readTop (← s.readArgument .top arg) args

/-! ## The environment -/

/-- The variable that supplies an option. -/
def supplier? : Slot → Option String
  | .config => some "METHOD_TRANSFORM_CONFIG"
  | .logLevel => some "METHOD_TRANSFORM_LOG_LEVEL"
  | .logFormat => some "METHOD_TRANSFORM_LOG_FORMAT"
  | _ => none

/-- The value that the environment supplies. -/
def supplied (env : List (String × String)) (slot : Slot) : Option String :=
  (supplier? slot).bind fun name => env.lookup name

/-- Checks the path that the environment supplies if none is given. -/
def checkSupplied (env : List (String × String)) (s : Scan) : Except UsageFault Unit :=
  if (s.values.lookup Slot.config).isNone then
    match supplied env .config with
    | some value => if isAllowed .config value then .ok () else .error .invalidValue
    | none => .ok ()
  else .ok ()

/-- Ends the reading of a scope. -/
def finish (env : List (String × String)) (s : Scan) : Except UsageFault Scan := do
  let s ← s.settle
  checkSupplied env s
  return s

/-! ## Invocations -/

/-- The task of a command with its values. -/
def task (scope : Scope) (s : Scan) : Except UsageFault Command :=
  match scope with
  | .apply =>
    match s.values.lookup Slot.owner, s.values.lookup Slot.input with
    | some owner, some input =>
      .ok (.apply owner input ((s.values.lookup Slot.format).bind OutputFormat.ofText?))
    | _, _ => .error .missingArgument
  | .check => .ok .check
  | .describe | .top => .ok .describe

/-- The value of an option: behind the command, in front of it, or from the environment. -/
def value (env : List (String × String)) (top inner : Scan) (slot : Slot) : Option String :=
  inner.values.lookup slot <|> top.values.lookup slot <|> supplied env slot

/-- The fault of a command line without a command. -/
def withoutCommand (env : List (String × String)) (top : Scan) : UsageFault :=
  if top.values.isEmpty &&
      [Slot.config, Slot.logLevel, Slot.logFormat].all fun slot => (supplied env slot).isNone
  then .nothingGiven
  else .missingCommand

/-- Reads a command line. -/
def read (env : List (String × String)) (args : List String) :
    Except UsageFault Invocation := do
  let (top, command) ← readTop {} args
  match command with
  | none =>
    let top ← finish env top
    throw (withoutCommand env top)
  | some (scope, args) =>
    let inner ← finish env (← readCommand scope {} args)
    let command ← task scope inner
    let top ← finish env top
    let value := value env top inner
    return ⟨value .config, (value .logLevel).getD "info", value .logFormat, command⟩

end Redeclare.CommandLine
