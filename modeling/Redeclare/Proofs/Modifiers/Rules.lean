import Redeclare.Modifiers.Rule

/-!
# Lists of rules, bit by bit

A rule decides the bits of its range and those of its mask, whatever they were
before, and keeps every other bit.  Masks that reach outside their range are
taken as they are, so it is range and mask together that count.

There are three groups.

* One rule.  `governs` says which bits a rule decides, and
  `getLsbD_apply_eq_ite` what it does to each.
* The last word.  `lastGoverning` is the last rule of a list that decides a
  bit, and `getLsbD_resolve_eq_lastGoverning` says that its mask is what counts.
* One rule for a list.  Rules in a row act as one rule (`apply_andThen`), so a
  list acts as the rule that it collapses to (`resolve_eq_apply_collapse`) and
  a second pass does nothing (`resolve_resolve`).  `apply_eq_apply_iff` says how
  much of a rule its action still shows.
-/

namespace Redeclare

namespace Rule

/-! ## One rule -/

/-- Whether a rule decides a bit: it is in the range or in the mask. -/
def governs (r : Rule) (i : Nat) : Bool :=
  r.range.bits.getLsbD i || r.mask.bits.getLsbD i

/-- A bit after a rule: that of the mask where the rule governs, as it was elsewhere. -/
theorem getLsbD_apply_eq_ite (r : Rule) (m : Modifiers) (i : Nat) :
    (r.apply m).bits.getLsbD i =
      if r.governs i then r.mask.bits.getLsbD i else m.bits.getLsbD i := by
  rw [getLsbD_apply, governs]
  cases hrange : r.range.bits.getLsbD i with
  | true => simp
  | false =>
    by_cases hmask : r.mask.bits.getLsbD i = true
    · simp [hmask]
    · simp [hmask]

/-- A rule that is applied again changes nothing. -/
theorem apply_apply (r : Rule) (m : Modifiers) : r.apply (r.apply m) = r.apply m := by
  apply Modifiers.ext_bit
  intro i
  rw [getLsbD_apply_eq_ite, getLsbD_apply_eq_ite]
  cases r.governs i <;> rfl

end Rule

/-! ## The last word -/

/-- The last rule of a list that governs a bit, if there is one. -/
def lastGoverning (i : Nat) (rules : List Rule) : Option Rule :=
  rules.reverse.find? (·.governs i)

theorem lastGoverning_cons (i : Nat) (r : Rule) (rules : List Rule) :
    lastGoverning i (r :: rules) =
      (lastGoverning i rules).or (if r.governs i then some r else none) := by
  have hlast : List.find? (·.governs i) [r] = if r.governs i then some r else none := by
    by_cases h : r.governs i = true <;> simp [h]
  rw [lastGoverning, List.reverse_cons, List.find?_append, hlast, lastGoverning]

/-- Each bit of the result is the mask bit of the last rule that governs it, and a bit that no rule
governs is kept. -/
theorem getLsbD_resolve_eq_lastGoverning (rules : List Rule) (m : Modifiers) (i : Nat) :
    (resolve rules m).bits.getLsbD i =
      match lastGoverning i rules with
      | some r => r.mask.bits.getLsbD i
      | none => m.bits.getLsbD i := by
  -- The induction is from the front: the first rule only shows where no later one governs.
  induction rules generalizing m with
  | nil => rfl
  | cons r rules ih =>
    rw [resolve_cons, ih, lastGoverning_cons]
    cases hlast : lastGoverning i rules with
    | some s => rfl
    | none =>
      have hfirst := r.getLsbD_apply_eq_ite m i
      by_cases hr : r.governs i = true
      · rw [if_pos hr] at hfirst
        simpa [hr] using hfirst
      · rw [if_neg hr] at hfirst
        simpa [hr] using hfirst

/-- Of two mask bits outside their range, the one in the range of the next rule is cleared again and
the other one stays. -/
example :
    resolve [⟨.ofNat 0x0002, .ofNat 0x8008⟩, ⟨.ofNat 0x000f, .ofNat 0x0001⟩] (.ofNat 0x4012) =
      .ofNat 0xc011 := by decide

/-! ## One rule for a list -/

namespace Rule

/-- The rule that acts as `r` and then `s`. -/
def andThen (r s : Rule) : Rule :=
  ⟨r.range.union s.range, s.apply r.mask⟩

theorem apply_andThen (r s : Rule) (m : Modifiers) :
    (r.andThen s).apply m = s.apply (r.apply m) := by
  apply Modifiers.ext_bit
  intro i
  simp only [getLsbD_apply, andThen, Modifiers.getLsbD_union]
  cases s.mask.bits.getLsbD i <;> cases s.range.bits.getLsbD i <;> simp

/-- The union of the ranges, and the masks set one after the other on nothing. -/
def collapse (rules : List Rule) : Rule where
  range := rules.foldl (fun range r => range.union r.range) .empty
  mask := rules.foldl (fun mask r => (mask.diff r.range).union r.mask) .empty

theorem foldl_andThen (rules : List Rule) (r : Rule) :
    rules.foldl andThen r =
      ⟨rules.foldl (fun range s => range.union s.range) r.range,
        rules.foldl (fun mask s => (mask.diff s.range).union s.mask) r.mask⟩ := by
  induction rules generalizing r with
  | nil => rfl
  | cons s rules ih => exact ih (r.andThen s)

theorem apply_foldl_andThen (rules : List Rule) (r : Rule) (m : Modifiers) :
    (rules.foldl andThen r).apply m = resolve rules (r.apply m) := by
  induction rules generalizing r with
  | nil => rfl
  | cons s rules ih => rw [List.foldl_cons, ih, apply_andThen, resolve_cons]

/-- The rule without range and mask keeps every set. -/
theorem apply_empty (m : Modifiers) : (⟨.empty, .empty⟩ : Rule).apply m = m := by
  apply Modifiers.ext_bit
  intro i
  rw [getLsbD_apply]
  simp

/-- A list of rules acts as the one rule that it collapses to. -/
theorem resolve_eq_apply_collapse (rules : List Rule) (m : Modifiers) :
    resolve rules m = (collapse rules).apply m := by
  have hfold : rules.foldl andThen ⟨.empty, .empty⟩ = collapse rules := foldl_andThen rules _
  rw [← hfold, apply_foldl_andThen, apply_empty]

/-- A second pass over a list of rules changes nothing, also where they undo one another. -/
theorem resolve_resolve (rules : List Rule) (m : Modifiers) :
    resolve rules (resolve rules m) = resolve rules m := by
  rw [resolve_eq_apply_collapse, resolve_eq_apply_collapse, apply_apply]

/-- On nothing a rule leaves its mask, and of all bits it leaves those that it does not clear. -/
theorem apply_empty_right (r : Rule) : r.apply .empty = r.mask := by
  apply Modifiers.ext_bit
  intro i
  rw [getLsbD_apply]
  simp

/-- Two rules act alike exactly if their masks are equal and they govern the same bits. -/
theorem apply_eq_apply_iff (r s : Rule) :
    (∀ m, r.apply m = s.apply m) ↔
      r.mask = s.mask ∧ r.range.union r.mask = s.range.union s.mask := by
  constructor
  · intro h
    have hmask : r.mask = s.mask := by
      have hempty := h .empty
      rwa [apply_empty_right, apply_empty_right] at hempty
    refine ⟨hmask, Modifiers.ext_bit fun i => ?_⟩
    -- On the set of all bits, what is governed and not set by the mask is missing.
    have hbit := congrArg (fun m : Modifiers => m.bits.getLsbD i) (h ⟨BitVec.allOnes 16⟩)
    simp only [getLsbD_apply, BitVec.getLsbD_allOnes, hmask] at hbit
    rw [Modifiers.getLsbD_union, Modifiers.getLsbD_union, hmask]
    by_cases hi : i < 16
    · cases hset : s.mask.bits.getLsbD i with
      | true => simp
      | false =>
        rw [hset] at hbit
        simpa [hi] using hbit
    · simp [BitVec.getLsbD_of_ge _ _ (Nat.le_of_not_lt hi)]
  · rintro ⟨hmask, hgoverned⟩ m
    apply Modifiers.ext_bit
    intro i
    have hbit := congrArg (fun m : Modifiers => m.bits.getLsbD i) hgoverned
    simp only [Modifiers.getLsbD_union, hmask] at hbit
    rw [getLsbD_apply_eq_ite, getLsbD_apply_eq_ite, governs, governs, hmask, hbit]

end Rule

end Redeclare
