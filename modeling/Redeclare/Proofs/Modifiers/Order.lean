import Mathlib.Data.List.Pairwise
import Redeclare.Proofs.Modifiers.Rules

/-!
# When the order of rules matters

Two rules conflict on a bit that both decide if one sets it and the other one
clears it.  Rules without a conflict may stand in any order, stray bits of
their masks included; rules with a conflict may not.

* `Rule.apply_comm_of_not_conflicts` and `Rule.apply_ne_of_conflicts` are the
  two halves for two rules.  A conflict shows on every set, since the last of
  the two rules decides the bit whatever was there before.
* `resolve_perm` goes from two rules that stand side by side to every
  permutation of a list, and `not_conflicts_of_sublist` back from the
  permutations of a list to any two of its rules, which may be far apart: one
  permutation puts them at the end in one order, another one in the other.
-/

namespace Redeclare

namespace Rule

/-! ## Two rules -/

/-- Whether both rules decide some bit and one of them sets it while the other one clears it. -/
def Conflicts (r s : Rule) : Prop :=
  ∃ i, r.governs i = true ∧ s.governs i = true ∧ r.mask.bits.getLsbD i ≠ s.mask.bits.getLsbD i

theorem governs_eq_false_of_ge (r : Rule) {i : Nat} (hi : 16 ≤ i) : r.governs i = false := by
  rw [governs, BitVec.getLsbD_of_ge _ _ hi, BitVec.getLsbD_of_ge _ _ hi, Bool.or_false]

instance (r s : Rule) : Decidable (r.Conflicts s) :=
  decidable_of_iff (∃ i : Fin 16, r.governs i = true ∧ s.governs i = true ∧
      r.mask.bits.getLsbD i ≠ s.mask.bits.getLsbD i) <| by
    constructor
    · rintro ⟨i, h⟩
      exact ⟨i, h⟩
    · rintro ⟨i, hr, h⟩
      have hi : i < 16 := by
        by_contra hge
        rw [r.governs_eq_false_of_ge (Nat.le_of_not_lt hge)] at hr
        cases hr
      exact ⟨⟨i, hi⟩, hr, h⟩

theorem Conflicts.symm {r s : Rule} (h : r.Conflicts s) : s.Conflicts r := by
  obtain ⟨i, hr, hs, hne⟩ := h
  exact ⟨i, hs, hr, hne.symm⟩

theorem not_conflicts_self (r : Rule) : ¬ r.Conflicts r := by
  rintro ⟨i, -, -, hne⟩
  exact hne rfl

/-- Rules that do not conflict may be swapped. -/
theorem apply_comm_of_not_conflicts {r s : Rule} (h : ¬ r.Conflicts s) (m : Modifiers) :
    s.apply (r.apply m) = r.apply (s.apply m) := by
  apply Modifiers.ext_bit
  intro i
  simp only [getLsbD_apply_eq_ite]
  by_cases hr : r.governs i = true
  · by_cases hs : s.governs i = true
    · have hmask : r.mask.bits.getLsbD i = s.mask.bits.getLsbD i := by
        by_contra hne
        exact h ⟨i, hr, hs, hne⟩
      simp [hr, hs, hmask]
    · simp [hr, hs]
  · simp [hr]

/-- Rules that conflict may not be swapped, whatever the set is: the last one has its way. -/
theorem apply_ne_of_conflicts {r s : Rule} (h : r.Conflicts s) (m : Modifiers) :
    s.apply (r.apply m) ≠ r.apply (s.apply m) := by
  obtain ⟨i, hr, hs, hne⟩ := h
  intro heq
  have hbit := congrArg (fun m : Modifiers => m.bits.getLsbD i) heq
  simp only [getLsbD_apply_eq_ite] at hbit
  rw [if_pos hs, if_pos hr] at hbit
  exact hne hbit.symm

end Rule

/-! ## Lists of rules -/

/-- No two rules of a list conflict. -/
def ConflictFree (rules : List Rule) : Prop :=
  rules.Pairwise fun r s => ¬ r.Conflicts s

instance (rules : List Rule) : Decidable (ConflictFree rules) :=
  inferInstanceAs (Decidable (rules.Pairwise _))

theorem ConflictFree.not_conflicts {rules : List Rule} (h : ConflictFree rules) {r s : Rule}
    (hr : r ∈ rules) (hs : s ∈ rules) : ¬ r.Conflicts s := by
  have hsymm : Std.Symm fun r s : Rule => ¬ r.Conflicts s := ⟨fun _ _ hrs hsr => hrs hsr.symm⟩
  exact List.Pairwise.forall_of_forall (fun r _ => r.not_conflicts_self) h hr hs

/-- Without a conflict every permutation of a list acts alike. -/
theorem resolve_perm {rules rules' : List Rule} (h : ConflictFree rules)
    (hperm : rules'.Perm rules) (m : Modifiers) : resolve rules' m = resolve rules m := by
  refine (hperm.symm.foldl_eq' ?_ m).symm
  intro r hr s hs m
  exact Rule.apply_comm_of_not_conflicts (h.not_conflicts hr hs) m

/-- If all permutations of a list act alike, two rules of it do not conflict, wherever they stand. -/
theorem not_conflicts_of_sublist {rules : List Rule} {r s : Rule} (hsub : [r, s].Sublist rules)
    (h : ∀ rules', rules'.Perm rules → ∀ m, resolve rules' m = resolve rules m) :
    ¬ r.Conflicts s := by
  intro hconflict
  -- Behind all other rules the two stand side by side, in either order.
  obtain ⟨others, hothers⟩ := hsub.exists_perm_append
  have hrs : (others ++ [r, s]).Perm rules := (hothers.trans List.perm_append_comm).symm
  have hsr : (others ++ [s, r]).Perm rules := ((List.Perm.swap r s []).append_left others).trans hrs
  have heq := (h _ hrs .empty).trans (h _ hsr .empty).symm
  rw [resolve_append, resolve_append] at heq
  exact Rule.apply_ne_of_conflicts hconflict _ heq

/-- The order of two rules matters exactly if they conflict, and that of a list exactly if two of its
rules do. -/
theorem order_matters_iff_conflicts :
    (∀ r s : Rule, (∀ m, s.apply (r.apply m) = r.apply (s.apply m)) ↔ ¬ r.Conflicts s) ∧
    ∀ rules : List Rule, ConflictFree rules ↔
      ∀ rules', rules'.Perm rules → ∀ m, resolve rules' m = resolve rules m := by
  refine ⟨fun r s => ⟨?_, Rule.apply_comm_of_not_conflicts⟩, fun rules => ⟨?_, ?_⟩⟩
  · intro h hconflict
    exact Rule.apply_ne_of_conflicts hconflict .empty (h .empty)
  · intro h rules' hperm
    exact resolve_perm h hperm
  · intro h
    rw [ConflictFree, List.pairwise_iff_forall_sublist]
    intro r s hsub
    exact not_conflicts_of_sublist hsub h

/-- Masks that reach into the range of another rule do no harm as long as they set what it sets, so
three such rules may be turned around.  Two choices of one group may not. -/
theorem order_matters_iff_conflicts_of_stray_bits :
    let rules : List Rule := [⟨.ofNat 0x0007, .ofNat 0x8001⟩, ⟨.ofNat 0x8000, .ofNat 0x8010⟩,
      ⟨.ofNat 0x0030, .ofNat 0x0010⟩]
    let r : Rule := ⟨.ofNat 0x0007, .ofNat 0x0001⟩
    let s : Rule := ⟨.ofNat 0x0007, .ofNat 0x0000⟩
    ConflictFree rules ∧ (∀ m, resolve rules.reverse m = resolve rules m) ∧
      r.Conflicts s ∧ ¬ ∀ m, s.apply (r.apply m) = r.apply (s.apply m) := by
  intro rules r s
  have hfree : ConflictFree rules := by decide
  have hconflict : r.Conflicts s := by decide
  refine ⟨hfree, ?_, hconflict, ?_⟩
  · exact (order_matters_iff_conflicts.2 rules).mp hfree _ rules.reverse_perm
  · intro h
    exact (order_matters_iff_conflicts.1 r s).mp h hconflict

end Redeclare
