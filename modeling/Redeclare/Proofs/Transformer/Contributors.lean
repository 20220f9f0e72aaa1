import Redeclare.Error
import Redeclare.Proofs.Reading.Run
import Redeclare.Proofs.Transformer.Overrides

/-!
# Overrides by contributors that may be missing

A list of contributors with a gap is refused, with the place of the first gap.
A list without one is the override by all of them in order.

* A list either has a first gap or is complete: `exists_gap_or_complete`.
* `completeRules_of_gap` and `completeRules_of_complete` say what becomes of the rules
  in each case, whatever the place that counting starts from.
* `overrideChecked_eq_error_iff` and `overrideChecked_eq_ok_iff` say which lists are
  refused and which are overrides, and `overrideChecked_refuses_gaps` puts them
  together.
-/

namespace Redeclare.Transformer

variable {α : Type}

/-- A list has a first gap, behind contributors that are present, or none. -/
theorem exists_gap_or_complete (contributors : List (Option α)) :
    (∃ (before : List α) (after : List (Option α)), contributors = before.map some ++ none :: after) ∨
      ∃ present : List α, contributors = present.map some := by
  induction contributors with
  | nil => exact .inr ⟨[], rfl⟩
  | cons contributor contributors ih =>
    cases contributor with
    | none => exact .inl ⟨[], contributors, rfl⟩
    | some c =>
      rcases ih with ⟨before, after, rfl⟩ | ⟨present, rfl⟩
      · exact .inl ⟨c :: before, after, rfl⟩
      · exact .inr ⟨c :: present, rfl⟩

theorem none_mem_iff_exists_gap {contributors : List (Option α)} : none ∈ contributors ↔
    ∃ (before : List α) (after : List (Option α)), contributors = before.map some ++ none :: after := by
  constructor
  · intro hnone
    rcases exists_gap_or_complete contributors with hgap | ⟨present, rfl⟩
    · exact hgap
    · simp at hnone
  · rintro ⟨before, after, rfl⟩
    exact List.mem_append_right _ List.mem_cons_self

/-- The rules up to the first gap are dropped; its place counts from the place of the list. -/
theorem completeRules_of_gap (place : Nat) (before : List Rule) (after : List (Option Rule)) :
    completeRules place (before.map some ++ none :: after) = .error (place + before.length) := by
  induction before generalizing place with
  | nil => rfl
  | cons rule before ih =>
    rw [List.map_cons, List.cons_append, completeRules, ih, List.length_cons, Nat.add_assoc,
      Nat.add_comm 1]
    rfl

theorem completeRules_of_complete (place : Nat) (rules : List Rule) :
    completeRules place (rules.map some) = .ok rules := by
  induction rules generalizing place with
  | nil => rfl
  | cons rule rules ih =>
    rw [List.map_cons, completeRules, ih]
    rfl

section Contributors

variable (rule : α → Rule)

theorem overrideChecked_of_gap (before : List α) (after : List (Option α)) :
    overrideChecked ((before.map some ++ none :: after).map (Option.map rule)) =
      .error (.missingContributor before.length) := by
  have hrules : (before.map some ++ none :: after).map (Option.map rule) =
      (before.map rule).map some ++ none :: after.map (Option.map rule) := by simp
  have hgap := completeRules_of_gap 0 (before.map rule) (after.map (Option.map rule))
  rw [Nat.zero_add, List.length_map] at hgap
  rw [hrules, overrideChecked, overrideWithOptional, hgap]
  rfl

theorem overrideChecked_of_complete (present : List α) :
    overrideChecked ((present.map some).map (Option.map rule)) =
      .ok (overrideWith (present.map rule)) := by
  have hrules : (present.map some).map (Option.map rule) = (present.map rule).map some := by simp
  rw [hrules, overrideChecked, overrideWithOptional, completeRules_of_complete]
  rfl

theorem overrideChecked_eq_error_iff {contributors : List (Option α)} {e : Error} :
    overrideChecked (contributors.map (Option.map rule)) = .error e ↔
      ∃ (before : List α) (after : List (Option α)), contributors = before.map some ++ none :: after ∧
        e = .missingContributor before.length := by
  constructor
  · intro he
    rcases exists_gap_or_complete contributors with ⟨before, after, rfl⟩ | ⟨present, rfl⟩
    · have hresult := overrideChecked_of_gap rule before after
      exact ⟨before, after, rfl, (Except.error.inj (hresult.symm.trans he)).symm⟩
    · exact nomatch (overrideChecked_of_complete rule present).symm.trans he
  · rintro ⟨before, after, rfl, rfl⟩
    exact overrideChecked_of_gap rule before after

theorem overrideChecked_eq_ok_iff {contributors : List (Option α)} {t : Transformer} :
    overrideChecked (contributors.map (Option.map rule)) = .ok t ↔
      ∃ present : List α, contributors = present.map some ∧ t = overrideWith (present.map rule) := by
  constructor
  · intro ht
    rcases exists_gap_or_complete contributors with ⟨before, after, rfl⟩ | ⟨present, rfl⟩
    · exact nomatch (overrideChecked_of_gap rule before after).symm.trans ht
    · have hresult := overrideChecked_of_complete rule present
      exact ⟨present, rfl, (Except.ok.inj (hresult.symm.trans ht)).symm⟩
  · rintro ⟨present, rfl, rfl⟩
    exact overrideChecked_of_complete rule present

/-- What contributors resolve modifiers to is their rules applied one after the other. -/
theorem transform_overrideWith_map (present : List α) (owner : TypeName) (m : Method) :
    (overrideWith (present.map rule)).transform owner m = .ok ⟨owner, m.token.withModifiers
      (present.foldl (fun modifiers c => (rule c).apply modifiers) m.token.modifiers)⟩ := by
  rw [transform_overrideWith, resolve, List.foldl_map]

/-- Contributors that may be missing are refused exactly if one of them is, in a message with the place
of the first gap counted from zero, whatever stands behind it.  If none is missing they are an override
by all of them in order, which resolves the modifiers of any method to the fold of their rules. -/
theorem overrideChecked_refuses_gaps (contributors : List (Option α)) :
    ((∃ e, overrideChecked (contributors.map (Option.map rule)) = .error e) ↔ none ∈ contributors) ∧
    (∀ e, overrideChecked (contributors.map (Option.map rule)) = .error e ↔
      ∃ (before : List α) (after : List (Option α)), contributors = before.map some ++ none :: after ∧
        e = .invalidArgument ("modifier contributor #" ++ toString before.length ++ " is missing")) ∧
    ∀ t, overrideChecked (contributors.map (Option.map rule)) = .ok t ↔
      ∃ present : List α, contributors = present.map some ∧ t = overrideWith (present.map rule) ∧
        ∀ owner m, t.transform owner m = .ok ⟨owner, m.token.withModifiers
          (present.foldl (fun modifiers c => (rule c).apply modifiers) m.token.modifiers)⟩ := by
  refine ⟨?_, fun e => overrideChecked_eq_error_iff rule, fun t => ?_⟩
  · simp only [overrideChecked_eq_error_iff, none_mem_iff_exists_gap]
    constructor
    · rintro ⟨e, before, after, heq, -⟩
      exact ⟨before, after, heq⟩
    · rintro ⟨before, after, heq⟩
      exact ⟨_, before, after, heq, rfl⟩
  · rw [overrideChecked_eq_ok_iff]
    refine exists_congr fun present => and_congr_right fun _ => ?_
    constructor
    · rintro rfl
      exact ⟨rfl, transform_overrideWith_map rule present⟩
    · exact And.left

end Contributors

/-- The second contributor is the first one that is missing. -/
example : overrideChecked ([some .static, none, some .final, none].map (Option.map ModifierName.rule)) =
    .error (.missingContributor 1) := rfl

end Redeclare.Transformer
