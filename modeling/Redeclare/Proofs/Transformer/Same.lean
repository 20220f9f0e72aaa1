import Mathlib.Data.List.Forall2
import Redeclare.Proofs.Transformer.Leaves
import Redeclare.Transformer.Hash

/-!
# What sameness of transformers means

Two transformers are the same if they have one shape, the same rules in the
same places, and copies of one instance where they call functions of a user.
Sameness does not look at the functions themselves; it is equality of what is
left when every instance gets its function from one table.

* `Alike` says what has to agree, constructor by constructor, and
  `same_iff_alike` that nothing else does.
* `withFunctions` is a transformer with the functions of a table.
  `same_iff_withFunctions_eq` makes sameness an equality, and so an equivalence.
* What is shown, what a hasher is fed and whether a transformer does nothing
  do not depend on the functions, so they are equal for transformers that are
  the same.  If every instance runs the function of the table, transformers
  that are the same are equal outright.
-/

namespace Redeclare

/-- The functions that stand behind instances. -/
abbrev Functions := Nat → MethodToken → Except String MethodToken

namespace Transformer

/-! ## Sameness, constructor by constructor -/

/-- Two transformers of one shape, with the same rules in the same order, and at the leaves that
call a function the same name and copies of one instance. -/
inductive Alike : Transformer → Transformer → Prop where
  | noOp : Alike noOp noOp
  | override (rules : List Rule) : Alike (simple (.override rules)) (simple (.override rules))
  | custom {p q : CustomPolicy} (name : p.name = q.name) (instanceId : p.instanceId = q.instanceId) :
      Alike (simple (.custom p)) (simple (.custom q))
  | compound {ts us : List Transformer} (steps : List.Forall₂ Alike ts us) :
      Alike (compound ts) (compound us)

theorem alike_simple_iff {p q : Policy} : Alike (simple p) (simple q) ↔ p.same q = true := by
  cases p with
  | override rules =>
    cases q with
    | override rules' =>
      rw [Policy.same, beq_iff_eq]
      constructor
      · rintro ⟨⟩
        rfl
      · rintro rfl
        exact .override rules
    | custom q => exact iff_of_false (fun h => nomatch h) (by simp [Policy.same])
  | custom p =>
    cases q with
    | override rules' => exact iff_of_false (fun h => nomatch h) (by simp [Policy.same])
    | custom q =>
      rw [Policy.same, CustomPolicy.same, Bool.and_eq_true, beq_iff_eq, beq_iff_eq]
      constructor
      · rintro ⟨⟩
        exact ⟨‹_›, ‹_›⟩
      · rintro ⟨hname, hinstance⟩
        exact .custom hname hinstance

mutual

theorem same_iff_alike : ∀ t u : Transformer, t.same u = true ↔ Alike t u
  | noOp, u => by
    cases u with
    | noOp => exact iff_of_true rfl .noOp
    | simple _ | compound _ => exact iff_of_false (by simp [same]) (fun h => nomatch h)
  | simple p, u => by
    cases u with
    | simple q => exact alike_simple_iff.symm
    | noOp | compound _ => exact iff_of_false (by simp [same]) (fun h => nomatch h)
  | compound ts, u => by
    cases u with
    | compound us =>
      rw [same, sameSteps_iff_forall₂ ts us]
      constructor
      · exact .compound
      · rintro ⟨⟩
        assumption
    | noOp | simple _ => exact iff_of_false (by simp [same]) (fun h => nomatch h)

theorem sameSteps_iff_forall₂ : ∀ ts us : List Transformer,
    sameSteps ts us = true ↔ List.Forall₂ Alike ts us
  | [], us => by cases us <;> simp [sameSteps]
  | t :: ts, us => by
    cases us with
    | nil => simp [sameSteps]
    | cons u us =>
      rw [sameSteps, Bool.and_eq_true, List.forall₂_cons, same_iff_alike t u,
        sameSteps_iff_forall₂ ts us]

end

end Transformer

/-! ## Sameness as an equality -/

namespace Policy

/-- The policy with the function that its instance has in a table. -/
def withFunctions (functions : Functions) : Policy → Policy
  | override rules => override rules
  | custom p => custom { p with run := functions p.instanceId }

variable (functions : Functions)

theorem same_iff_withFunctions_eq (p q : Policy) :
    p.same q = true ↔ p.withFunctions functions = q.withFunctions functions := by
  cases p with
  | override rules => cases q <;> simp [same, withFunctions]
  | custom p =>
    cases q with
    | override rules => simp [same, withFunctions]
    | custom q =>
      simp only [same, CustomPolicy.same, withFunctions, Bool.and_eq_true, beq_iff_eq,
        Policy.custom.injEq, CustomPolicy.mk.injEq]
      constructor
      · rintro ⟨hname, hinstance⟩
        exact ⟨hname, hinstance, congrArg functions hinstance⟩
      · rintro ⟨hname, hinstance, -⟩
        exact ⟨hname, hinstance⟩

@[simp] theorem display_withFunctions (p : Policy) :
    (p.withFunctions functions).display = p.display := by
  cases p <;> rfl

@[simp] theorem hashInput_withFunctions (p : Policy) :
    (p.withFunctions functions).hashInput = p.hashInput := by
  cases p <;> rfl

end Policy

namespace Transformer

mutual

/-- The transformer with the functions that its instances have in a table. -/
def withFunctions (functions : Functions) : Transformer → Transformer
  | noOp => noOp
  | simple policy => simple (policy.withFunctions functions)
  | compound steps => compound (stepsWithFunctions functions steps)

/-- Several transformers with the functions that their instances have in a table. -/
def stepsWithFunctions (functions : Functions) : List Transformer → List Transformer
  | [] => []
  | step :: steps => withFunctions functions step :: stepsWithFunctions functions steps

end

theorem length_stepsWithFunctions (functions : Functions) (steps : List Transformer) :
    (stepsWithFunctions functions steps).length = steps.length := by
  induction steps with
  | nil => rfl
  | cons step steps ih => rw [stepsWithFunctions, List.length_cons, List.length_cons, ih]

mutual

/-- Sameness is equality up to the functions. -/
theorem same_iff_withFunctions_eq (functions : Functions) : ∀ t u : Transformer,
    t.same u = true ↔ t.withFunctions functions = u.withFunctions functions
  | noOp, u => by cases u <;> simp [same, withFunctions]
  | simple p, u => by
    cases u with
    | simple q =>
      rw [same, p.same_iff_withFunctions_eq functions, withFunctions, withFunctions,
        Transformer.simple.injEq]
    | noOp | compound _ => simp [same, withFunctions]
  | compound ts, u => by
    cases u with
    | compound us =>
      rw [same, sameSteps_iff_stepsWithFunctions_eq functions ts us, withFunctions, withFunctions,
        Transformer.compound.injEq]
    | noOp | simple _ => simp [same, withFunctions]

theorem sameSteps_iff_stepsWithFunctions_eq (functions : Functions) : ∀ ts us : List Transformer,
    sameSteps ts us = true ↔ stepsWithFunctions functions ts = stepsWithFunctions functions us
  | [], us => by cases us <;> simp [sameSteps, stepsWithFunctions]
  | t :: ts, us => by
    cases us with
    | nil => simp [sameSteps, stepsWithFunctions]
    | cons u us =>
      rw [sameSteps, Bool.and_eq_true, same_iff_withFunctions_eq functions t u,
        sameSteps_iff_stepsWithFunctions_eq functions ts us, stepsWithFunctions, stepsWithFunctions,
        List.cons.injEq]

end

theorem equivalence_same : Equivalence fun t u : Transformer => t.same u = true := by
  -- Any table will do.
  have hsame := same_iff_withFunctions_eq fun _ => .ok
  refine ⟨fun t => (hsame t t).mpr rfl, fun {t u} h => ?_, fun {t u v} h h' => ?_⟩
  · exact (hsame u t).mpr ((hsame t u).mp h).symm
  · exact (hsame t v).mpr (((hsame t u).mp h).trans ((hsame u v).mp h'))

/-! ## What does not depend on the functions -/

section WithFunctions

variable (functions : Functions)

mutual

theorem display_withFunctions : ∀ t : Transformer, (t.withFunctions functions).display = t.display
  | noOp => by rw [withFunctions]
  | simple p => by
    rw [withFunctions]
    unfold display displaySimple
    rw [Policy.display_withFunctions]
  | compound steps => by
    rw [withFunctions]
    unfold display
    rw [displaySteps_withFunctions steps]

theorem displaySteps_withFunctions : ∀ steps : List Transformer,
    displaySteps (stepsWithFunctions functions steps) = displaySteps steps
  | [] => rfl
  | step :: steps => by
    rw [stepsWithFunctions, displaySteps, displaySteps, display_withFunctions step,
      displayRest_withFunctions steps]

theorem displayRest_withFunctions : ∀ steps : List Transformer,
    displayRest (stepsWithFunctions functions steps) = displayRest steps
  | [] => rfl
  | step :: steps => by
    rw [stepsWithFunctions, displayRest, displayRest, display_withFunctions step,
      displayRest_withFunctions steps]

end

mutual

theorem hashInput_withFunctions : ∀ t : Transformer,
    (t.withFunctions functions).hashInput = t.hashInput
  | noOp => rfl
  | simple p => by rw [withFunctions, hashInput, hashInput, Policy.hashInput_withFunctions]
  | compound steps => by
    rw [withFunctions, hashInput, hashInput, length_stepsWithFunctions,
      hashInputs_withFunctions steps]

theorem hashInputs_withFunctions : ∀ steps : List Transformer,
    hashInputs (stepsWithFunctions functions steps) = hashInputs steps
  | [] => rfl
  | step :: steps => by
    rw [stepsWithFunctions, hashInputs, hashInputs, hashInput_withFunctions step,
      hashInputs_withFunctions steps]

end

mutual

theorem isNoOp_withFunctions : ∀ t : Transformer, (t.withFunctions functions).isNoOp = t.isNoOp
  | noOp => rfl
  | simple p => rfl
  | compound steps => by rw [withFunctions, isNoOp, isNoOp, allNoOp_withFunctions steps]

theorem allNoOp_withFunctions : ∀ steps : List Transformer,
    allNoOp (stepsWithFunctions functions steps) = allNoOp steps
  | [] => rfl
  | step :: steps => by
    rw [stepsWithFunctions, allNoOp, allNoOp, isNoOp_withFunctions step,
      allNoOp_withFunctions steps]

end

end WithFunctions

/-- Every custom policy runs the function that its instance has in a table. -/
def RunsTable (functions : Functions) (t : Transformer) : Prop :=
  ∀ p, Policy.custom p ∈ t.policies → p.run = functions p.instanceId

mutual

theorem withFunctions_eq_self {functions : Functions} : ∀ t : Transformer, t.RunsTable functions →
    t.withFunctions functions = t
  | noOp, _ => rfl
  | simple (.override rules), _ => rfl
  | simple (.custom p), h => by
    rw [withFunctions, Policy.withFunctions, ← h p List.mem_cons_self]
  | compound steps, h => by
    rw [withFunctions, stepsWithFunctions_eq_self steps h]

theorem stepsWithFunctions_eq_self {functions : Functions} : ∀ steps : List Transformer,
    (∀ p, Policy.custom p ∈ policiesOf steps → p.run = functions p.instanceId) →
      stepsWithFunctions functions steps = steps
  | [], _ => rfl
  | step :: steps, h => by
    rw [stepsWithFunctions,
      withFunctions_eq_self step fun p hp => h p (List.mem_append_left _ hp),
      stepsWithFunctions_eq_self steps fun p hp => h p (List.mem_append_right _ hp)]

end

/-- Where one instance stands for one function, transformers that are the same are equal. -/
theorem eq_of_same {functions : Functions} {t u : Transformer} (ht : t.RunsTable functions)
    (hu : u.RunsTable functions) (h : t.same u = true) : t = u := by
  rw [← withFunctions_eq_self t ht, ← withFunctions_eq_self u hu]
  exact (same_iff_withFunctions_eq functions t u).mp h

/-- Sameness is an equivalence; it holds exactly for transformers that are alike constructor by
constructor.  Transformers that are the same feed a hasher the same data, have one display text and
do nothing together, and they have one effect where one instance stands for one function. -/
theorem same_iff_alike_and_indistinguishable :
    (Equivalence fun t u : Transformer => t.same u = true) ∧
    (∀ t u : Transformer, t.same u = true ↔ Alike t u) ∧
    (∀ t u : Transformer, t.same u = true →
      t.hashInput = u.hashInput ∧ t.display = u.display ∧ t.isNoOp = u.isNoOp) ∧
    ∀ (functions : Functions) (t u : Transformer), t.RunsTable functions → u.RunsTable functions →
      t.same u = true → t.SameEffect u := by
  refine ⟨equivalence_same, same_iff_alike, fun t u h => ?_, fun functions t u ht hu h => ?_⟩
  · have heq := (same_iff_withFunctions_eq (fun _ => .ok) t u).mp h
    refine ⟨?_, ?_, ?_⟩
    · rw [← hashInput_withFunctions (fun _ => .ok) t, heq, hashInput_withFunctions]
    · rw [← display_withFunctions (fun _ => .ok) t, heq, display_withFunctions]
    · rw [← isNoOp_withFunctions (fun _ => .ok) t, heq, isNoOp_withFunctions]
  · rw [eq_of_same ht hu h]
    exact fun _ _ => rfl

/-- A copy of an instance is the same, in a compound too.  Another instance of the same name and
function is not, though a hasher is fed the same. -/
theorem same_iff_alike_and_indistinguishable_of_copy :
    let functions : Functions := fun _ token => .ok { token with name := "renamed" }
    let instanceOf (number : Nat) : Transformer := simple (.custom ⟨"rename", number, functions number⟩)
    let t := compound [instanceOf 1, noOp]
    let u := compound [instanceOf 2, noOp]
    t.same t = true ∧ t.RunsTable functions ∧ t.SameEffect t ∧
      t.same u = false ∧ t.hashInput = u.hashInput := by
  intro functions instanceOf t u
  have htable : t.RunsTable functions := by
    intro p hp
    have hp : Policy.custom p ∈ [Policy.custom ⟨"rename", 1, functions 1⟩] := hp
    rw [Policy.custom.inj (List.mem_singleton.mp hp)]
  have hcopy : t.same t = true := rfl
  exact ⟨hcopy, htable,
    same_iff_alike_and_indistinguishable.2.2.2 functions t t htable htable hcopy, rfl, rfl⟩

end Transformer

end Redeclare
