import Redeclare.Main
import Redeclare.Method.Signature
import Redeclare.Proofs.Modifiers.Groups
import Redeclare.Proofs.Modifiers.Order
import Redeclare.Proofs.Modifiers.Reach
import Redeclare.Proofs.Transformer.Choices
import Redeclare.Proofs.Plan.Effect
import Redeclare.Proofs.Transformer.Leaves
import Redeclare.Reading.Json
import Redeclare.Reading.JsonText
import Redeclare.Reading.YamlPlan
import Redeclare.Proofs.Text.Numeral
import Redeclare.Proofs.Transformer.Display
import Redeclare.Proofs.Json.Scalars
import Redeclare.Proofs.Json.RoundTrip
import Redeclare.Proofs.Modifiers.Text
import Redeclare.Proofs.Method.RoundTrip
import Redeclare.Proofs.Program.Apply
import Redeclare.Proofs.Program.Printed
import Redeclare.Proofs.Transformer.Same
import Redeclare.Proofs.KeyMap
import Redeclare.Proofs.Settings.OfTree
import Redeclare.Proofs.Settings.File
import Redeclare.Proofs.Settings.Environment
import Redeclare.Proofs.Settings.Precedence
import Redeclare.Proofs.Plan.Keys
import Redeclare.Proofs.Plan.Forms
import Redeclare.Proofs.Method.Buffered
import Redeclare.Proofs.Method.Changes
import Redeclare.Proofs.Yaml.Scalar
import Redeclare.Proofs.Reading.Place
import Redeclare.Proofs.Method.Reread
import Redeclare.Proofs.Json.Parts
import Redeclare.Proofs.Plan.Grammar
import Redeclare.Proofs.Method.Constants
import Redeclare.Proofs.Modifiers.Grammar
import Redeclare.Proofs.Reading.Variant
import Redeclare.Proofs.Method.KeyOrder
import Redeclare.Proofs.Method.Positional
import Redeclare.Proofs.Modifiers.Name
import Redeclare.Proofs.Settings.Unrelated
import Redeclare.Proofs.Transformer.Contributors
