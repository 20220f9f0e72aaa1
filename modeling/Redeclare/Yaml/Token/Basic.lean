import Redeclare.Yaml.Style
import Redeclare.Yaml.Text

/-!
# YAML tokens

The tokens of a YAML stream.  Block collections have tokens of their own for
where they start and end, which the text shows by indentation only.
-/

namespace Redeclare.Yaml

/-- A token of a stream. -/
inductive Token where
  | version (major minor : Nat)
  | tagHandle (handle expansion : List Char)
  | documentStart
  | documentEnd
  | blockSequence
  | blockMapping
  | blockEnd
  | flowSequence
  | flowSequenceEnd
  | flowMapping
  | flowMappingEnd
  | entry
  | flowEntry
  | key
  | value
  | alias (name : List Char)
  | anchor (name : List Char)
  | tag (handle suffix : List Char)
  | scalar (text : List Char) (style : Style)
  deriving DecidableEq

end Redeclare.Yaml
