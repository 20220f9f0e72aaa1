import Redeclare.Program

/-!
# The command line

Collects what a run finds around it, runs the program, and prints what it
leaves behind.
-/

namespace Redeclare.CommandLine

/-- The variables in the text of an environment block: names and values with an equals sign
between them, each pair with a zero behind it. -/
def variablesOfBlock (block : List Char) : List (String × String) :=
  (Text.splitAt '\x00' block).filterMap fun entry =>
    match entry.dropWhile (· ≠ '=') with
    | _ :: value => some (String.ofList (entry.takeWhile (· ≠ '=')), String.ofList value)
    | [] => none

/-- The environment of the process. -/
def readVariables : IO (List (String × String)) := do
  try
    let block ← IO.FS.readBinFile "/proc/self/environ"
    return variablesOfBlock ((String.fromUTF8? block).getD "").toList
  catch _ => return []

/-- What there is under the name of a file. -/
def readFile (path : String) : IO FileState := do
  try
    return .bytes (← IO.FS.readBinFile path)
  catch
    | .noFileOrDirectory .. => return .missing
    | _ => return .directory

/-- The files that a run may read. -/
def paths (env : List (String × String)) (args : List String) : List String :=
  match read env args with
  | .error _ => []
  | .ok i =>
    i.config.toList ++
      match i.command with
      | .apply _ input _ => [input]
      | .describe | .check => []

/-- The files that a run may read, with what there is under their names. -/
def readFiles (paths : List String) : IO (String → FileState) := do
  let files ← paths.mapM fun path => return (path, ← readFile path)
  return fun path => (files.lookup path).getD .missing

end Redeclare.CommandLine

open Redeclare in
/-- Runs the program in its process. -/
def main (args : List String) : IO UInt32 := do
  let env ← CommandLine.readVariables
  let file ← CommandLine.readFiles (CommandLine.paths env args)
  let outcome := Program.run ⟨env, file⟩ args
  for entry in outcome.log do
    IO.eprintln entry.message
  for failure in outcome.failures do
    IO.eprintln failure
  IO.print outcome.output
  return outcome.status.toUInt32
