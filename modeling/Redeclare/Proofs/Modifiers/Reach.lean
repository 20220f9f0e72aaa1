import Redeclare.Modifiers.Rule

/-!
# Which bits a list of rules reaches

A rule is meant to touch the bits of its range only, and a mask that reaches
outside breaks that.  In a list such a stray bit may still lie in the range of
another rule, so what counts is whether it lies in some range of the list.

* `getLsbD_resolve_of_outside` says what becomes of a bit in no range: no rule
  clears it, so each stray bit that is ever set on it stays.  One rule keeps
  that (`Rule.getLsbD_apply_of_outside`), whichever rules follow.
* `resolve_diff_rangeUnion_iff` turns that into a condition on the rules, and
  `Rule.isConfined_iff_contains_strayBits` is what it means for a single one.
-/

namespace Redeclare

namespace Modifiers

/-! ## Sets compared bit by bit -/

theorem contains_iff {m n : Modifiers} :
    m.contains n = true ↔ ∀ i, n.bits.getLsbD i = true → m.bits.getLsbD i = true := by
  rw [contains, beq_iff_eq]
  constructor
  · intro h i hi
    rw [← h, getLsbD_inter, Bool.and_eq_true] at hi
    exact hi.1
  · intro h
    apply ext_bit
    intro i
    rw [getLsbD_inter]
    cases hi : n.bits.getLsbD i with
    | false => rw [Bool.and_false]
    | true => rw [h i hi, Bool.and_true]

theorem contains_trans {m n k : Modifiers} (hmn : m.contains n = true)
    (hnk : n.contains k = true) : m.contains k = true := by
  rw [contains_iff] at *
  intro i hi
  exact hmn i (hnk i hi)

/-- Sets agree outside of `u` if they have the same bits there. -/
theorem diff_eq_diff_iff {m n u : Modifiers} :
    m.diff u = n.diff u ↔
      ∀ i, u.bits.getLsbD i = false → m.bits.getLsbD i = n.bits.getLsbD i := by
  constructor
  · intro h i hi
    by_cases hlt : i < 16
    · have hbit := congrArg (fun m : Modifiers => m.bits.getLsbD i) h
      simp only [getLsbD_diff, hi, hlt] at hbit
      simpa only [decide_true, Bool.true_and, Bool.not_false, Bool.and_true] using hbit
    · rw [BitVec.getLsbD_of_ge _ _ (Nat.le_of_not_lt hlt),
        BitVec.getLsbD_of_ge _ _ (Nat.le_of_not_lt hlt)]
  · intro h
    apply ext_bit
    intro i
    rw [getLsbD_diff, getLsbD_diff]
    cases hi : u.bits.getLsbD i with
    | false => rw [h i hi]
    | true => simp

end Modifiers

namespace Rule

/-! ## One rule -/

/-- A rule is confined if its stray bits lie in its own range: they lie outside of it. -/
theorem isConfined_iff_contains_strayBits (r : Rule) :
    r.isConfined = true ↔ r.range.contains r.strayBits = true := by
  rw [isConfined, beq_iff_eq, Modifiers.contains_iff]
  constructor
  · intro h i hi
    rw [h] at hi
    simp at hi
  · intro h
    apply Modifiers.ext_bit
    intro i
    cases hi : r.strayBits.bits.getLsbD i with
    | false => simp
    | true =>
      have hrange := h i hi
      rw [getLsbD_strayBits, hrange] at hi
      simp at hi

/-- A bit outside of the range is set if it is a stray bit, and kept otherwise. -/
theorem getLsbD_apply_of_outside {r : Rule} {i : Nat} (hi : r.range.bits.getLsbD i = false)
    (m : Modifiers) :
    (r.apply m).bits.getLsbD i = (r.strayBits.bits.getLsbD i || m.bits.getLsbD i) := by
  rw [getLsbD_apply, getLsbD_strayBits, hi, Bool.not_false, Bool.and_true, Bool.and_true]

end Rule

/-! ## Lists of rules -/

/-- The bits in the range of some rule. -/
def rangeUnion : List Rule → Modifiers
  | [] => .empty
  | r :: rules => r.range.union (rangeUnion rules)

theorem rangeUnion_singleton (r : Rule) : rangeUnion [r] = r.range :=
  Modifiers.union_empty r.range

theorem getLsbD_rangeUnion (rules : List Rule) (i : Nat) :
    (rangeUnion rules).bits.getLsbD i = rules.any (·.range.bits.getLsbD i) := by
  induction rules with
  | nil => simp [rangeUnion]
  | cons r rules ih => rw [rangeUnion, Modifiers.getLsbD_union, ih, List.any_cons]

/-- The range of a rule lies in the union of the ranges. -/
theorem contains_rangeUnion_of_mem {rules : List Rule} {r : Rule} (hr : r ∈ rules) :
    (rangeUnion rules).contains r.range = true := by
  rw [Modifiers.contains_iff]
  intro i hi
  rw [getLsbD_rangeUnion, List.any_eq_true]
  exact ⟨r, hr, hi⟩

/-- On a bit in no range every stray bit stays. -/
theorem getLsbD_resolve_of_outside {rules : List Rule} {i : Nat}
    (hi : (rangeUnion rules).bits.getLsbD i = false) (m : Modifiers) :
    (resolve rules m).bits.getLsbD i =
      (rules.any (·.strayBits.bits.getLsbD i) || m.bits.getLsbD i) := by
  induction rules generalizing m with
  | nil => rfl
  | cons r rules ih =>
    rw [rangeUnion, Modifiers.getLsbD_union, Bool.or_eq_false_iff] at hi
    rw [resolve_cons, ih hi.2, Rule.getLsbD_apply_of_outside hi.1, List.any_cons, ← Bool.or_assoc,
      Bool.or_comm (rules.any _)]

/-- A list of rules keeps every bit in none of its ranges exactly if each stray bit of a rule lies in
the range of some rule. -/
theorem resolve_diff_rangeUnion_iff (rules : List Rule) :
    (∀ m, (resolve rules m).diff (rangeUnion rules) = m.diff (rangeUnion rules)) ↔
      ∀ r ∈ rules, (rangeUnion rules).contains r.strayBits = true := by
  constructor
  · intro h r hr
    rw [Modifiers.contains_iff]
    intro i hstray
    cases hin : (rangeUnion rules).bits.getLsbD i with
    | true => rfl
    | false =>
      -- On the empty set a stray bit in no range is new.
      have hkept := Modifiers.diff_eq_diff_iff.mp (h .empty) i hin
      rw [getLsbD_resolve_of_outside hin, List.any_eq_true.mpr ⟨r, hr, hstray⟩] at hkept
      simp at hkept
  · intro h m
    rw [Modifiers.diff_eq_diff_iff]
    intro i hout
    have hstray : rules.any (·.strayBits.bits.getLsbD i) = false := by
      rw [List.any_eq_false]
      intro r hr hi
      have hin := Modifiers.contains_iff.mp (h r hr) i hi
      rw [hout] at hin
      cases hin
    rw [getLsbD_resolve_of_outside hout, hstray, Bool.false_or]

/-- A list of rules leaves everything outside of its ranges alone exactly if the stray bits of every
rule lie in some range of the list; a single rule does so exactly if it is confined.  Lists of
confined rules are an instance. -/
theorem resolve_stays_in_ranges_iff :
    (∀ rules : List Rule,
      (∀ m, (resolve rules m).diff (rangeUnion rules) = m.diff (rangeUnion rules)) ↔
        ∀ r ∈ rules, (rangeUnion rules).contains r.strayBits = true) ∧
    (∀ r : Rule, r.isConfined = true ↔ ∀ m, (r.apply m).diff r.range = m.diff r.range) ∧
    ∀ rules : List Rule, (∀ r ∈ rules, r.isConfined = true) →
      ∀ m, (resolve rules m).diff (rangeUnion rules) = m.diff (rangeUnion rules) := by
  refine ⟨resolve_diff_rangeUnion_iff, fun r => ?_, fun rules h => ?_⟩
  · have hone := resolve_diff_rangeUnion_iff [r]
    rw [rangeUnion_singleton, List.forall_mem_singleton] at hone
    exact r.isConfined_iff_contains_strayBits.trans hone.symm
  · rw [resolve_diff_rangeUnion_iff]
    intro r hr
    exact Modifiers.contains_trans (contains_rangeUnion_of_mem hr)
      (r.isConfined_iff_contains_strayBits.mp (h r hr))

/-- A rule that sets a bit outside of its range is harmless next to one with that bit in its range,
and not by itself. -/
theorem resolve_stays_in_ranges_iff_of_covered_stray_bit :
    let r : Rule := ⟨.ofNat 0x0001, .ofNat 0x0009⟩
    let s : Rule := ⟨.ofNat 0x0008, .ofNat 0x0000⟩
    let t : Rule := ⟨.ofNat 0x0110, .ofNat 0x0010⟩
    (∀ m, (resolve [r, s] m).diff (rangeUnion [r, s]) = m.diff (rangeUnion [r, s])) ∧
      (¬ ∀ m, (r.apply m).diff r.range = m.diff r.range) ∧
      (∀ q ∈ [s, t], q.isConfined = true) ∧
      ∀ m, (resolve [s, t] m).diff (rangeUnion [s, t]) = m.diff (rangeUnion [s, t]) := by
  intro r s t
  have hconfined : ∀ q ∈ [s, t], q.isConfined = true := by decide
  refine ⟨(resolve_stays_in_ranges_iff.1 [r, s]).mpr (by decide), ?_, hconfined, ?_⟩
  · rw [← resolve_stays_in_ranges_iff.2.1 r]
    decide
  · exact resolve_stays_in_ranges_iff.2.2 [s, t] hconfined

end Redeclare
