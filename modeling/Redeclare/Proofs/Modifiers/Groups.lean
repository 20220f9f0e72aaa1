import Redeclare.Modifiers.Name

/-!
# Each group of choices is settled by its last choice

The seven groups share no bit, together they cover the bits with a name, and a
choice sets bits of its own group only.  A list of choices therefore settles
every group by itself: the last choice of a group decides all bits of it, and
a group without a choice keeps the bits that it had.

* `Rule.inter_range_apply` and `Rule.inter_apply_of_disjoint` say what one
  confined rule does inside and outside its range.
* `resolve_inter_range` and `resolve_inter_unnamed` carry that through a list
  of choices.
* `resolve_eq_iff_lastIn` is the converse as well: two lists of choices that
  act alike on all modifiers end with the same choice in every group.
-/

namespace Redeclare

/-! ## One rule -/

namespace Rule

variable {r : Rule}

/-- A confined rule sets a bit only inside its range. -/
theorem getLsbD_range_of_mask (h : r.isConfined = true) {i : Nat}
    (hi : r.mask.bits.getLsbD i = true) : r.range.bits.getLsbD i = true := by
  have hstray : r.strayBits = .empty := eq_of_beq h
  have hbit := r.getLsbD_strayBits i
  rw [hstray, hi] at hbit
  simpa using hbit.symm

/-- A confined rule leaves its mask in its range. -/
theorem inter_range_apply (h : r.isConfined = true) (m : Modifiers) :
    (r.apply m).inter r.range = r.mask := by
  apply Modifiers.ext_bit
  intro i
  rw [Modifiers.getLsbD_inter, getLsbD_apply]
  cases hmask : r.mask.bits.getLsbD i with
  | true => rw [getLsbD_range_of_mask h hmask]; simp
  | false => cases r.range.bits.getLsbD i <;> simp

/-- A confined rule keeps every bit of a set that does not meet its range. -/
theorem inter_apply_of_disjoint (h : r.isConfined = true) {s : Modifiers}
    (hs : s.inter r.range = .empty) (m : Modifiers) : (r.apply m).inter s = m.inter s := by
  apply Modifiers.ext_bit
  intro i
  have hbit := congrArg (fun m : Modifiers => m.bits.getLsbD i) hs
  simp only [Modifiers.getLsbD_inter, Modifiers.getLsbD_empty] at hbit
  rw [Modifiers.getLsbD_inter, Modifiers.getLsbD_inter, getLsbD_apply]
  cases hsi : s.bits.getLsbD i with
  | false => simp
  | true =>
    have hrange : r.range.bits.getLsbD i = false := by simpa [hsi] using hbit
    have hmask : r.mask.bits.getLsbD i = false := by
      cases hm : r.mask.bits.getLsbD i with
      | false => rfl
      | true => rw [getLsbD_range_of_mask h hm] at hrange; exact hrange
    simp [hrange, hmask]

end Rule

/-! ## The bits of the groups -/

/-- The bits without a name. -/
def Modifiers.unnamed : Modifiers := ⟨~~~named.bits⟩

theorem Modifiers.getLsbD_unnamed (i : Nat) :
    unnamed.bits.getLsbD i = (decide (i < 16) && !named.bits.getLsbD i) :=
  BitVec.getLsbD_not

namespace Group

/-- Every group. -/
def all : List Group :=
  [visibility, ownership, manifestation, synchronization, origin, strictness, arity]

theorem range_ne_empty (g : Group) : g.range ≠ .empty := by
  cases g <;> decide

/-- Two groups share no bit. -/
theorem range_inter_range {g h : Group} (hne : g ≠ h) : g.range.inter h.range = .empty := by
  cases g <;> cases h <;> first | decide | exact absurd rfl hne

/-- No group has a bit without a name. -/
theorem unnamed_inter_range (g : Group) : Modifiers.unnamed.inter g.range = .empty := by
  cases g <;> decide

/-- The groups cover the bits with a name. -/
theorem foldl_union_range : all.foldl (fun m g => m.union g.range) .empty = Modifiers.named := by
  decide

theorem exists_range_of_named {i : Nat} (h : Modifiers.named.bits.getLsbD i = true) :
    ∃ g : Group, g.range.bits.getLsbD i = true := by
  rw [← foldl_union_range] at h
  simp only [all, List.foldl_cons, List.foldl_nil, Modifiers.getLsbD_union, Bool.or_eq_true] at h
  rcases h with ((((((h | h) | h) | h) | h) | h) | h) | h
  · simp at h
  all_goals exact ⟨_, h⟩

end Group

/-- Sets that agree in every group and on the bits without a name are one set. -/
theorem Modifiers.eq_of_inter_range_eq {a b : Modifiers}
    (hgroups : ∀ g : Group, a.inter g.range = b.inter g.range)
    (hrest : a.inter unnamed = b.inter unnamed) : a = b := by
  apply ext_bit
  intro i
  by_cases hlt : i < 16
  · cases hi : named.bits.getLsbD i with
    | true =>
      obtain ⟨g, hg⟩ := Group.exists_range_of_named hi
      have hbit := congrArg (fun m : Modifiers => m.bits.getLsbD i) (hgroups g)
      simpa only [getLsbD_inter, hg, Bool.and_true] using hbit
    | false =>
      have hun : unnamed.bits.getLsbD i = true := by simp [getLsbD_unnamed, hi, hlt]
      have hbit := congrArg (fun m : Modifiers => m.bits.getLsbD i) hrest
      simpa only [getLsbD_inter, hun, Bool.and_true] using hbit
  · rw [BitVec.getLsbD_of_ge _ _ (Nat.le_of_not_lt hlt),
      BitVec.getLsbD_of_ge _ _ (Nat.le_of_not_lt hlt)]

/-! ## Lists of choices -/

namespace ModifierName

/-- Within its group a choice is the only one that sets its flags. -/
theorem find?_group_mask (n : ModifierName) :
    all.find? (fun k => k.group = n.group ∧ k.mask = n.mask) = some n := by
  cases n <;> decide

theorem eq_of_group_eq_of_mask_eq {n k : ModifierName} (hgroup : n.group = k.group)
    (hmask : n.mask = k.mask) : n = k := by
  have hn := find?_group_mask n
  rw [hgroup, hmask, find?_group_mask k] at hn
  exact (Option.some.inj hn).symm

theorem inter_range_apply_of_group_ne {n : ModifierName} {g : Group} (h : n.group ≠ g)
    (m : Modifiers) : (n.rule.apply m).inter g.range = m.inter g.range :=
  Rule.inter_apply_of_disjoint n.rule_isConfined (Group.range_inter_range (Ne.symm h)) m

end ModifierName

/-- The last choice of a group in a list of choices. -/
def lastIn (g : Group) (names : List ModifierName) : Option ModifierName :=
  (names.filter fun n => n.group = g).getLast?

theorem lastIn_cons (g : Group) (n : ModifierName) (names : List ModifierName) :
    lastIn g (n :: names) = (lastIn g names).or (if n.group = g then some n else none) := by
  by_cases h : n.group = g
  · rw [lastIn, List.filter_cons_of_pos (by simpa using h), List.getLast?_cons, if_pos h, lastIn]
    cases (names.filter fun n => n.group = g).getLast? <;> rfl
  · rw [lastIn, List.filter_cons_of_neg (by simpa using h), if_neg h, Option.or_none, lastIn]

theorem group_of_lastIn {g : Group} {names : List ModifierName} {n : ModifierName}
    (h : lastIn g names = some n) : n.group = g := by
  have hmem := List.mem_of_getLast? h
  simpa using (List.mem_filter.mp hmem).2

/-- The bits of a group when `choice` is its last choice, if there is one. -/
def Group.settled (g : Group) (m : Modifiers) : Option ModifierName → Modifiers
  | some n => n.mask
  | none => m.inter g.range

/-- The last choice of a group decides its bits. -/
theorem resolve_inter_range (g : Group) (names : List ModifierName) (m : Modifiers) :
    (resolve (names.map ModifierName.rule) m).inter g.range = g.settled m (lastIn g names) := by
  induction names generalizing m with
  | nil => rfl
  | cons n names ih =>
    rw [List.map_cons, resolve_cons, ih, lastIn_cons]
    cases lastIn g names with
    | some k => rfl
    | none =>
      by_cases h : n.group = g
      · subst h
        rw [if_pos rfl]
        exact Rule.inter_range_apply n.rule_isConfined m
      · rw [if_neg h]
        exact ModifierName.inter_range_apply_of_group_ne h m

/-- Choices keep the bits without a name. -/
theorem resolve_inter_unnamed (names : List ModifierName) (m : Modifiers) :
    (resolve (names.map ModifierName.rule) m).inter .unnamed = m.inter .unnamed := by
  induction names generalizing m with
  | nil => rfl
  | cons n names ih =>
    rw [List.map_cons, resolve_cons, ih]
    exact Rule.inter_apply_of_disjoint n.rule_isConfined n.group.unnamed_inter_range m

/-- Bits that are the flags of one choice are no copy of what was there before: they would be all
bits of the group and none of them. -/
theorem Group.not_forall_inter_eq (g : Group) (mask : Modifiers) :
    ¬ ∀ m : Modifiers, mask = m.inter g.range := by
  intro h
  have hall : mask = g.range := by
    rw [h g.range, Modifiers.inter_self]
  have hnone : mask = .empty := by
    rw [h .empty, Modifiers.empty_inter]
  exact g.range_ne_empty (hall.symm.trans hnone)

/-- What settles a group shows which choice was the last. -/
theorem Group.eq_of_settled_eq {g : Group} {a b : Option ModifierName}
    (ha : ∀ n, a = some n → n.group = g) (hb : ∀ n, b = some n → n.group = g)
    (h : ∀ m, g.settled m a = g.settled m b) : a = b := by
  cases a with
  | none =>
    cases b with
    | none => rfl
    | some k => exact absurd (fun m => (h m).symm) (g.not_forall_inter_eq k.mask)
  | some n =>
    cases b with
    | none => exact absurd h (g.not_forall_inter_eq n.mask)
    | some k =>
      have hgroup : n.group = k.group := (ha n rfl).trans (hb k rfl).symm
      rw [ModifierName.eq_of_group_eq_of_mask_eq hgroup (h .empty)]

/-- Two lists of choices act alike exactly if in every group their last choices are the same. -/
theorem resolve_eq_iff_lastIn (names names' : List ModifierName) :
    (∀ m, resolve (names.map ModifierName.rule) m = resolve (names'.map ModifierName.rule) m) ↔
      ∀ g, lastIn g names = lastIn g names' := by
  constructor
  · intro h g
    refine Group.eq_of_settled_eq (fun n => group_of_lastIn) (fun n => group_of_lastIn) fun m => ?_
    rw [← resolve_inter_range, ← resolve_inter_range, h]
  · intro h m
    apply Modifiers.eq_of_inter_range_eq
    · intro g
      rw [resolve_inter_range, resolve_inter_range, h]
    · rw [resolve_inter_unnamed, resolve_inter_unnamed]

end Redeclare
