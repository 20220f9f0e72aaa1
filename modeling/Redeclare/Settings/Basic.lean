import Redeclare.Form
import Redeclare.Json.Writer
import Redeclare.Transformer.Plan
import Redeclare.Yaml.Writer

/-!
# Settings

What a configuration sets: the plan of the transformer, and how output is
written.
-/

namespace Redeclare

/-- The formats of output. -/
inductive OutputFormat where
  | json
  | yaml
  deriving DecidableEq

namespace OutputFormat

/-- Every format. -/
def all : List OutputFormat := [json, yaml]

/-- The name of a format. -/
def text : OutputFormat → String
  | json => "json"
  | yaml => "yaml"

/-- The format with exactly this name. -/
def ofText? (text : String) : Option OutputFormat :=
  all.find? (·.text == text)

/-- The text of a written form.  `pretty` gives JSON its line breaks; YAML always has them. -/
def render (format : OutputFormat) (pretty : Bool) (form : Form) : String :=
  match format with
  | json => form.toJson.write (if pretty then .pretty else .compact)
  | yaml => Yaml.write form

end OutputFormat

/-- How output is written. -/
structure OutputSettings where
  format : OutputFormat := .json
  pretty : Bool := true
  deriving DecidableEq

/-- What a configuration sets. -/
structure Settings where
  plan : Plan := .noop
  output : OutputSettings := {}
  deriving DecidableEq

/-! ## Written forms -/

/-- The written form of a named choice. -/
def ModifierName.form (n : ModifierName) : Form := .text n.text

namespace Plan

mutual

/-- The written form of a plan. -/
def form : Plan → Form
  | noop => .text "noop"
  | override names => .variant "override" (.list (names.map ModifierName.form))
  | chain plans => .variant "chain" (.list (forms plans))

/-- The written forms of several plans. -/
def forms : List Plan → List Form
  | [] => []
  | plan :: plans => form plan :: forms plans

end

end Plan

/-- The written form of the output settings. -/
def OutputSettings.form (o : OutputSettings) : Form :=
  .record [("format", .text o.format.text), ("pretty", .bool o.pretty)]

/-- The written form of settings. -/
def Settings.form (s : Settings) : Form :=
  .record [("transformer", s.plan.form), ("output", s.output.form)]

end Redeclare
