import Redeclare.Reading.Yaml
import Redeclare.Settings.Load
import Redeclare.Transformer.Basic
import Redeclare.Transformer.Plan

/-!
# Errors

What can go wrong outside of a transformation: a transformer cannot be built, a
configuration cannot be loaded, a file cannot be read, or its text does not
hold method tokens.  Transformers that are built never fail by themselves.
-/

namespace Redeclare

/-- Why a file cannot be read as a text. -/
inductive FileFault where
  | notFound
  | isDirectory
  | notText
  deriving DecidableEq

/-- The wording of a file fault. -/
def FileFault.message : FileFault → String
  | notFound => "No such file or directory (os error 2)"
  | isDirectory => "Is a directory (os error 21)"
  | notText => "stream did not contain valid UTF-8"

/-- What there is under the name of a file. -/
inductive FileState where
  | missing
  | directory
  | bytes (content : ByteArray)

/-- The text of a file. -/
def FileState.text : FileState → Except FileFault String
  | missing => .error .notFound
  | directory => .error .isDirectory
  | bytes content =>
    match String.fromUTF8? content with
    | some text => .ok text
    | none => .error .notText

/-- The errors of this library. -/
inductive Error where
  /-- An argument from which no transformer can be built. -/
  | invalidArgument (message : String)
  /-- A configuration that cannot be loaded. -/
  | config (fault : LoadFault)
  /-- A file that cannot be read. -/
  | io (fault : FileFault)
  /-- A text that does not hold what is read from it. -/
  | yaml (fault : Yaml.TextFault)

namespace Error

/-- The error of a name that no modifier choice has. -/
def unknownModifier (name : String) : Error :=
  .invalidArgument ("unknown modifier: " ++ name)

/-- The error of a list of contributors with a gap, counted from zero. -/
def missingContributor (place : Nat) : Error :=
  .invalidArgument ("modifier contributor #" ++ toString place ++ " is missing")

/-- What is said of a text that is no YAML document. -/
def malformed : String := "malformed document"

/-- The display text of an error. -/
def display : Error → String
  | invalidArgument message => "Invalid argument: " ++ message
  | config fault => "Configuration error: " ++ fault.message.getD malformed
  | io fault => "IO error: " ++ fault.message
  | yaml fault => "YAML error: " ++ fault.message.getD malformed

/-- Whether an argument was refused. -/
def isInvalidArgument : Error → Bool
  | invalidArgument _ => true
  | _ => false

end Error

/-- Reads a name as a user types it. -/
def ModifierName.parse (text : String) : Except Error ModifierName :=
  (ModifierName.read text).mapError .unknownModifier

/-- Overrides modifiers by rules that may be missing. -/
def Transformer.overrideChecked (rules : List (Option Rule)) : Except Error Transformer :=
  (Transformer.overrideWithOptional rules).mapError .missingContributor

namespace Plan

mutual

/-- The transformer of a plan, or why none can be built from it. -/
def compileChecked : Plan → Except Error Transformer
  | noop => .ok .noOp
  | override names => .ok (.overrideWith (names.map ModifierName.rule))
  | chain plans => (compileAllChecked plans).map .compound

/-- The transformers of several plans, in order; the first plan from which none can be built refuses
the whole list. -/
def compileAllChecked : List Plan → Except Error (List Transformer)
  | [] => .ok []
  | plan :: plans =>
    match compileChecked plan with
    | .error e => .error e
    | .ok t => (compileAllChecked plans).map (t :: ·)

end

end Plan

/-- Reads a list of method tokens. -/
def MethodToken.parseAll (text : String) : Except Error (List MethodToken) :=
  (MethodToken.readAll text).mapError .yaml

/-- Reads a list of method tokens from a file. -/
def MethodToken.load (file : FileState) : Except Error (List MethodToken) :=
  match file.text with
  | .error fault => .error (.io fault)
  | .ok text => MethodToken.parseAll text

end Redeclare
