import Redeclare.Transformer.Basic

/-!
# Transformer plans

The declarative form of a transformer, as configurations state it: nothing, a
list of named modifier choices, or a chain of plans.
-/

namespace Redeclare

/-- What a configuration says about the transformer to build. -/
inductive Plan where
  /-- Leave methods alone. -/
  | noop
  /-- Override modifiers by the named choices, in order. -/
  | override (names : List ModifierName)
  /-- Run the transformers of several plans in order. -/
  | chain (plans : List Plan)

namespace Plan

instance : Inhabited Plan := ⟨noop⟩

mutual

/-- Whether two plans are the same. -/
def decEq : (p q : Plan) → Decidable (p = q)
  | noop, noop => isTrue rfl
  | override names, override names' => decidable_of_iff (names = names') (by rw [override.injEq])
  | chain plans, chain plans' =>
    match decEqs plans plans' with
    | isTrue h => isTrue (congrArg chain h)
    | isFalse h => isFalse fun heq => h (chain.inj heq)
  | noop, override _ | noop, chain _ | override _, noop | override _, chain _ | chain _, noop
  | chain _, override _ => isFalse nofun

/-- Whether two lists of plans are the same. -/
def decEqs : (plans plans' : List Plan) → Decidable (plans = plans')
  | [], [] => isTrue rfl
  | p :: plans, q :: plans' =>
    match decEq p q, decEqs plans plans' with
    | isTrue h, isTrue h' => isTrue (by rw [h, h'])
    | isFalse h, _ => isFalse fun heq => h (List.cons.inj heq).1
    | _, isFalse h' => isFalse fun heq => h' (List.cons.inj heq).2
  | [], _ :: _ | _ :: _, [] => isFalse nofun

end

instance : DecidableEq Plan := decEq

/-- The names of the three kinds of plan. -/
def variants : List String := ["noop", "override", "chain"]

mutual

/-- The transformer of a plan. -/
def compile : Plan → Transformer
  | noop => .noOp
  | override names => .overrideWith (names.map ModifierName.rule)
  | chain plans => .compound (compileAll plans)

/-- The transformers of several plans, in order. -/
def compileAll : List Plan → List Transformer
  | [] => []
  | plan :: plans => compile plan :: compileAll plans

end

end Plan

end Redeclare
