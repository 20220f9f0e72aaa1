import Redeclare.Error
import Redeclare.Proofs.Modifiers.Groups
import Redeclare.Proofs.Transformer.Overrides

/-!
# What a plan does

A plan is read depth first and from left to right: `overrides` lists its
override entries in that order, and `names` their choices.  Every plan
compiles.  Its transformer leaves methods alone if the plan has no override
entry; otherwise it binds them to the type, empty entries included, and
applies the rules of all choices in order.

`sameEffect_compile_iff` says how much of a plan its transformer still shows:
whether there is an override entry, and the last choice of every group.
-/

namespace Redeclare.Plan

mutual

/-- The override entries of a plan, in the order in which it is read. -/
def overrides : Plan → List (List ModifierName)
  | noop => []
  | override names => [names]
  | chain plans => overridesOf plans

/-- The override entries of several plans, in the order in which they are read. -/
def overridesOf : List Plan → List (List ModifierName)
  | [] => []
  | plan :: plans => overrides plan ++ overridesOf plans

end

/-- The choices of a plan, in the order in which it is read. -/
def names (p : Plan) : List ModifierName := p.overrides.flatten

example : names (chain [override [.static, .final], noop, chain [override [], override [.member]]]) =
    [.static, .final, .member] := rfl

/-! ## Compiling -/

mutual

/-- No plan is refused. -/
theorem compileChecked_eq : ∀ p : Plan, p.compileChecked = .ok p.compile
  | noop => rfl
  | override names => rfl
  | chain plans => by
    rw [compileChecked, compileAllChecked_eq plans, compile]
    rfl

theorem compileAllChecked_eq : ∀ plans : List Plan,
    compileAllChecked plans = .ok (compileAll plans)
  | [] => rfl
  | plan :: plans => by
    rw [compileAllChecked, compileChecked_eq plan, compileAllChecked_eq plans, compileAll]
    rfl

end

/-- The rules of an override entry. -/
def rulesOf (names : List ModifierName) : List Rule := names.map ModifierName.rule

mutual

/-- A compiled plan has one leaf for each override entry. -/
theorem policies_compile : ∀ p : Plan,
    p.compile.policies = (p.overrides.map rulesOf).map .override
  | noop => rfl
  | override names => rfl
  | chain plans => by
    rw [compile, Transformer.policies, overrides]
    exact policiesOf_compileAll plans

theorem policiesOf_compileAll : ∀ plans : List Plan,
    Transformer.policiesOf (compileAll plans) = ((overridesOf plans).map rulesOf).map .override
  | [] => rfl
  | plan :: plans => by
    rw [compileAll, Transformer.policiesOf, overridesOf, policies_compile plan,
      policiesOf_compileAll plans, List.map_append, List.map_append]

end

theorem policies_compile_eq_nil_iff (p : Plan) : p.compile.policies = [] ↔ p.overrides = [] := by
  rw [policies_compile, List.map_eq_nil_iff, List.map_eq_nil_iff]

/-! ## Running -/

theorem transform_compile (p : Plan) (owner : TypeName) (m : Method) :
    p.compile.transform owner m = .ok (
      if p.overrides = [] then m
      else ⟨owner, m.token.withModifiers (resolve (p.names.map ModifierName.rule)
        m.token.modifiers)⟩) := by
  rw [Transformer.transform_of_policies_eq_override (policies_compile p), policies_compile, names,
    List.map_flatten]
  cases p.overrides with
  | nil => rfl
  | cons entry entries => rfl

/-- Every plan compiles.  Without an override entry its transformer returns the method that it is
given; otherwise it binds the method to the type and folds the rules of all choices over its access
flags, in the order in which the plan is read. -/
theorem compile_folds_choices_in_order (p : Plan) :
    ∃ t, p.compileChecked = .ok t ∧ ∀ owner m,
      t.transform owner m = .ok (
        if p.overrides = [] then m
        else ⟨owner, m.token.withModifiers (p.names.foldl (fun flags n => n.rule.apply flags)
          m.token.modifiers)⟩) := by
  refine ⟨p.compile, compileChecked_eq p, fun owner m => ?_⟩
  rw [transform_compile, resolve, List.foldl_map]

/-! ## Plans with the same effect -/

theorem names_eq_nil {p : Plan} (h : p.overrides = []) : p.names = [] := by
  rw [names, h, List.flatten_nil]

/-- Transformers with the same effect come both from plans with an override entry, or both from
plans without one: only those without leave every method alone. -/
theorem overrides_eq_nil_iff_of_sameEffect {p q : Plan}
    (h : p.compile.SameEffect q.compile) : p.overrides = [] ↔ q.overrides = [] := by
  rw [← policies_compile_eq_nil_iff, ← policies_compile_eq_nil_iff,
    ← Transformer.transform_eq_self_iff, ← Transformer.transform_eq_self_iff]
  constructor
  · intro hp owner m
    rw [← h, hp]
  · intro hq owner m
    rw [h, hq]

theorem sameEffect_compile_of_resolve_eq {p q : Plan} (hentry : p.overrides = [] ↔ q.overrides = [])
    (h : ∀ flags, resolve (p.names.map ModifierName.rule) flags =
      resolve (q.names.map ModifierName.rule) flags) : p.compile.SameEffect q.compile := by
  intro owner m
  rw [transform_compile, transform_compile, h]
  by_cases hp : p.overrides = []
  · rw [if_pos hp, if_pos (hentry.mp hp)]
  · rw [if_neg hp, if_neg (mt hentry.mpr hp)]

theorem resolve_eq_of_sameEffect {p q : Plan} (h : p.compile.SameEffect q.compile)
    (flags : Modifiers) : resolve (p.names.map ModifierName.rule) flags =
      resolve (q.names.map ModifierName.rule) flags := by
  have hentry := overrides_eq_nil_iff_of_sameEffect h
  by_cases hp : p.overrides = []
  · rw [names_eq_nil hp, names_eq_nil (hentry.mp hp)]
  · have hrun := h ⟨"Owner"⟩
      ⟨⟨"Owner"⟩, { name := "", modifiers := flags, returnType := .void }⟩
    rw [transform_compile, transform_compile, if_neg hp, if_neg (mt hentry.mpr hp)] at hrun
    exact congrArg (fun m : Method => m.token.modifiers) (Except.ok.inj hrun)

/-- Two plans compile to transformers with the same effect exactly if both have an override entry or
neither has one, and if every group has the same last choice in both, or none in both. -/
theorem sameEffect_compile_iff (p q : Plan) :
    (∃ t u, p.compileChecked = .ok t ∧ q.compileChecked = .ok u ∧ t.SameEffect u) ↔
      (p.overrides ≠ [] ↔ q.overrides ≠ []) ∧ ∀ g, lastIn g p.names = lastIn g q.names := by
  rw [← resolve_eq_iff_lastIn, ne_eq, ne_eq, Decidable.not_iff_not]
  constructor
  · rintro ⟨t, u, ht, hu, h⟩
    rw [compileChecked_eq] at ht hu
    cases ht
    cases hu
    exact ⟨overrides_eq_nil_iff_of_sameEffect h, resolve_eq_of_sameEffect h⟩
  · rintro ⟨hentry, h⟩
    exact ⟨p.compile, q.compile, compileChecked_eq p, compileChecked_eq q,
      sameEffect_compile_of_resolve_eq hentry h⟩

end Redeclare.Plan
