import Redeclare.Method.Basic
import Redeclare.Modifiers.Name
import Redeclare.Text.Blank

/-!
# Token policies

A policy turns one method token into another.  It either overrides modifier
bits by a list of rules, or it is a named function that a user supplies and
that may abort with a text.
-/

namespace Redeclare

/-- A function on tokens under a name.  Each construction makes an instance of its own, numbered
by `instanceId`; copies of an instance keep its number. -/
structure CustomPolicy where
  name : String
  instanceId : Nat
  run : MethodToken → Except String MethodToken

namespace CustomPolicy

/-- Two policies are the same if they have one name and are copies of one instance. -/
def same (a b : CustomPolicy) : Bool :=
  a.name == b.name && a.instanceId == b.instanceId

/-- The display text of a custom policy. -/
def display (p : CustomPolicy) : String :=
  "Custom\x7bname=" ++ p.name ++ "\x7d"

end CustomPolicy

/-- The display text of a list of rules. -/
def displayRules (rules : List Rule) : String :=
  "ForModifierTransformation[" ++ Text.join ", " (rules.map Rule.display) ++ "]"

/-- How a simple transformer changes a token. -/
inductive Policy where
  /-- Applies rules to the modifiers and keeps everything else. -/
  | override (rules : List Rule)
  /-- Calls a function of the user. -/
  | custom (policy : CustomPolicy)

namespace Policy

/-- The token that a policy makes of a token, or the text with which a custom policy aborts. -/
def apply : Policy → MethodToken → Except String MethodToken
  | override rules, t => .ok (t.withModifiers (resolve rules t.modifiers))
  | custom policy, t => policy.run t

/-- Rule lists are compared rule by rule, custom policies by instance. -/
def same : Policy → Policy → Bool
  | override a, override b => a == b
  | custom a, custom b => a.same b
  | _, _ => false

/-- The display text of a policy. -/
def display : Policy → String
  | override rules => displayRules rules
  | custom policy => policy.display

end Policy

end Redeclare
