import Redeclare.Settings.Basic

/-!
# Command lines

What a run is asked to do, and why a command line is refused.
-/

namespace Redeclare

/-- The task of a run. -/
inductive Command where
  /-- Transform the method tokens of a file for definition on a type. -/
  | apply (owner : String) (input : String) (format : Option OutputFormat)
  /-- Print the configured transformer. -/
  | describe
  /-- Check the configuration. -/
  | check
  deriving DecidableEq

/-- A command line that is understood. -/
structure Invocation where
  config : Option String
  logLevel : String
  logFormat : Option String
  command : Command
  deriving DecidableEq

/-- Why a command line does not lead to a run. -/
inductive UsageFault where
  /-- Nothing at all is given. -/
  | nothingGiven
  /-- No command is given. -/
  | missingCommand
  /-- There is no such command. -/
  | unknownCommand
  /-- An argument that the command does not have. -/
  | unknownArgument
  /-- A required argument is missing. -/
  | missingArgument
  /-- A value is missing or is not one of those that are allowed. -/
  | invalidValue
  /-- A value is given to an option that takes none. -/
  | surplusValue
  /-- An option is given twice. -/
  | repeatedOption
  /-- Help is asked for. -/
  | helpRequested
  /-- The version is asked for. -/
  | versionRequested
  deriving DecidableEq

end Redeclare
