import Redeclare.Transformer.Basic

/-!
# What transformers feed to a hasher

A hasher is fed piece by piece.  Where there are several kinds of a thing, the
number of its kind comes first; a list is its length and then its items.  A
custom policy is its name alone, whatever function stands behind it.
-/

namespace Redeclare

/-- A piece of data that a hasher is fed. -/
inductive HashInput where
  /-- The number of a kind among its alternatives. -/
  | kind (number : Nat)
  /-- The number of items that follow. -/
  | count (items : Nat)
  | bits (value : Modifiers)
  | text (value : String)
  deriving DecidableEq

/-- What a rule feeds. -/
def Rule.hashInput (r : Rule) : List HashInput :=
  [.bits r.range, .bits r.mask]

/-- What a custom policy feeds. -/
def CustomPolicy.hashInput (p : CustomPolicy) : List HashInput :=
  [.text p.name]

/-- What a policy feeds. -/
def Policy.hashInput : Policy → List HashInput
  | override rules => .kind 0 :: .count rules.length :: rules.flatMap Rule.hashInput
  | custom policy => .kind 1 :: policy.hashInput

namespace Transformer

mutual

/-- What a transformer feeds. -/
def hashInput : Transformer → List HashInput
  | noOp => [.kind 0]
  | simple policy => .kind 1 :: policy.hashInput
  | compound steps => .kind 2 :: .count steps.length :: hashInputs steps

/-- What the steps of a compound feed, one after the other. -/
def hashInputs : List Transformer → List HashInput
  | [] => []
  | step :: steps => hashInput step ++ hashInputs steps

end

end Transformer

end Redeclare
