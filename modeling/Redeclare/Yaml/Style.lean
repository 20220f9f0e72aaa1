/-!
# Styles of scalars
-/

namespace Redeclare.Yaml

/-- How a scalar is written: without quotes, in single or double quotes, or as a block of lines. -/
inductive Style where
  | plain
  | single
  | double
  | block
  deriving DecidableEq

end Redeclare.Yaml
