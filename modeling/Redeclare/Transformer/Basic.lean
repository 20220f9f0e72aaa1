import Redeclare.Transformer.Policy

/-!
# Method transformers

A transformer substitutes a method before it is defined on a type.  It leaves
the method alone, rewrites its token by a policy and binds the result to the
type, or runs a list of transformers one after another.
-/

namespace Redeclare

/-- A substitution of methods. -/
inductive Transformer where
  /-- Leaves every method as it is. -/
  | noOp
  /-- Rewrites the token by a policy and binds it to the type. -/
  | simple (policy : Policy)
  /-- Runs transformers in order, each on the result of the one before. -/
  | compound (steps : List Transformer)

namespace Transformer

section Run

variable {M : Type → Type} [Monad M]

mutual

/-- The method that takes the place of `m` on the type `owner`.  Policies are run by `call`, so that
a run can also watch them. -/
def transformWith (call : Policy → MethodToken → M MethodToken) (owner : TypeName) :
    Transformer → Method → M Method
  | noOp, m => pure m
  | simple policy, m => do
    let token ← call policy m.token
    return ⟨owner, token⟩
  | compound steps, m => transformStepsWith call owner steps m

/-- Runs transformers in order, each on the result of the one before. -/
def transformStepsWith (call : Policy → MethodToken → M MethodToken) (owner : TypeName) :
    List Transformer → Method → M Method
  | [], m => pure m
  | step :: steps, m => do
    let m ← transformWith call owner step m
    transformStepsWith call owner steps m

end

end Run

/-- The method that takes the place of `m` on the type `owner`, or the text with which a custom
policy aborts; the first one that aborts ends the run. -/
def transform (owner : TypeName) (t : Transformer) (m : Method) : Except String Method :=
  t.transformWith Policy.apply owner m

/-- The substitutes of several methods, in order. -/
def transformAll (owner : TypeName) (t : Transformer) : List Method → Except String (List Method)
  | [] => .ok []
  | m :: ms =>
    match t.transform owner m with
    | .error text => .error text
    | .ok m' => (t.transformAll owner ms).map (m' :: ·)

mutual

/-- Whether the transformer is certain to leave every method alone. -/
def isNoOp : Transformer → Bool
  | noOp => true
  | simple _ => false
  | compound steps => allNoOp steps

/-- Whether every step leaves every method alone. -/
def allNoOp : List Transformer → Bool
  | [] => true
  | step :: steps => isNoOp step && allNoOp steps

end

mutual

/-- Transformers are the same if they have one shape and the same policies in the same places. -/
def same : Transformer → Transformer → Bool
  | noOp, noOp => true
  | simple a, simple b => a.same b
  | compound as, compound bs => sameSteps as bs
  | _, _ => false

/-- Lists of transformers compared step by step. -/
def sameSteps : List Transformer → List Transformer → Bool
  | [], [] => true
  | a :: as, b :: bs => same a b && sameSteps as bs
  | _, _ => false

end

/-- The display text of a simple transformer, without the prefix of transformers. -/
def displaySimple (policy : Policy) : String :=
  "Simple\x7btransformer=" ++ policy.display ++ "\x7d"

mutual

/-- The display text of a transformer. -/
def display : Transformer → String
  | noOp => "MethodTransformer::NoOp"
  | simple policy => "MethodTransformer::" ++ displaySimple policy
  | compound steps => "MethodTransformer::Compound[" ++ displaySteps steps ++ "]"

/-- The display texts of the steps, with a comma between every two. -/
def displaySteps : List Transformer → String
  | [] => ""
  | step :: steps => display step ++ displayRest steps

/-- The display texts of the steps behind the first, each with its comma. -/
def displayRest : List Transformer → String
  | [] => ""
  | step :: steps => ", " ++ display step ++ displayRest steps

end

/-- The display text of a compound, without the prefix of transformers. -/
def displayCompound (steps : List Transformer) : String :=
  "Compound[" ++ displaySteps steps ++ "]"

/-- Overrides modifiers by rules, in order. -/
def overrideWith (rules : List Rule) : Transformer :=
  simple (.override rules)

/-- The rules of a list in which entries may be missing: the place of the first missing entry if
there is one. -/
def completeRules (place : Nat) : List (Option Rule) → Except Nat (List Rule)
  | [] => .ok []
  | none :: _ => .error place
  | some rule :: rest => (completeRules (place + 1) rest).map (rule :: ·)

/-- Overrides modifiers by rules that may be missing; a missing rule refuses the whole list. -/
def overrideWithOptional (rules : List (Option Rule)) : Except Nat Transformer :=
  (completeRules 0 rules).map overrideWith

/-- Runs `next` behind `first`. -/
def andThen (first next : Transformer) : Transformer :=
  compound [first, next]

end Transformer

end Redeclare
