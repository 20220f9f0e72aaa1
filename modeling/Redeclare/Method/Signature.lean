import Redeclare.Method.Basic
import Redeclare.Text.Blank

/-!
# Signatures

The one-line text of a method, close to its declaration in source.
-/

namespace Redeclare.Method

/-- The text of a method: keywords, return type, qualified name, parameter types and exceptions.
A constructor has no return type. -/
def signature (m : Method) : String :=
  let t := m.token
  let keywords := String.join (t.modifiers.keywords.map (· ++ " "))
  let returned := if m.isConstructor then "" else t.returnType.name ++ " "
  let parameters := Text.join ", " (t.parameters.map (·.type.name))
  let thrown :=
    if t.exceptionTypes.isEmpty then ""
    else " throws " ++ Text.join ", " (t.exceptionTypes.map (·.name))
  keywords ++ returned ++ m.declaringType.name ++ "." ++ t.name ++ "(" ++ parameters ++ ")" ++ thrown

end Redeclare.Method
