import Redeclare.Proofs.Modifiers.Rules
import Redeclare.Proofs.Transformer.Leaves

/-!
# Transformers that only override modifiers

Without custom policies a run never aborts.  Whatever the tree looks like, it
resolves the rules of all its leaves in order on the access flags of the
method and changes nothing else of the token.

* `RulesOnly` says that a tree has no custom policies; `rules` are the rules of
  its leaves from left to right, and `transform_of_rulesOnly` is its run.
* `transform_bind_transform_of_rulesOnly` runs such a tree on its own result:
  resolving again and binding again both leave no trace of the first run.
* `sameEffect_overrideWith_collapse` turns a tree with at least one leaf into a
  single rule, so whether two trees act alike can be read off two rules
  (`acts_as_collapsed_rule`).
-/

namespace Redeclare

/-- Override policies in a row resolve all their rules in order and change nothing else. -/
theorem Policy.runAll_map_override (lists : List (List Rule)) (token : MethodToken) :
    runAll (lists.map .override) token =
      .ok (token.withModifiers (resolve lists.flatten token.modifiers)) := by
  induction lists generalizing token with
  | nil => rfl
  | cons rules lists ih =>
    have hstep : (Policy.override rules).apply token =
        .ok (token.withModifiers (resolve rules token.modifiers)) := rfl
    rw [List.map_cons, runAll_cons_of_ok _ hstep, ih, MethodToken.modifiers_withModifiers,
      MethodToken.withModifiers_withModifiers, List.flatten_cons, resolve_append]

namespace Transformer

/-! ## Trees without custom policies -/

/-- Every leaf overrides modifiers by rules; none runs a custom policy. -/
def RulesOnly (t : Transformer) : Prop :=
  ∀ p ∈ t.policies, ∃ rules, p = .override rules

theorem rulesOnly_compound {steps : List Transformer} :
    (compound steps).RulesOnly ↔ ∀ t ∈ steps, t.RulesOnly := by
  simp only [RulesOnly, policies_compound, List.mem_flatMap]
  constructor
  · intro h t ht p hp
    exact h p ⟨t, ht, hp⟩
  · rintro h p ⟨t, ht, hp⟩
    exact h t ht p hp

theorem rulesOnly_noOp : noOp.RulesOnly := by
  intro p hp
  exact absurd hp List.not_mem_nil

theorem rulesOnly_overrideWith (rules : List Rule) : (overrideWith rules).RulesOnly := by
  intro p hp
  exact ⟨rules, List.mem_singleton.mp hp⟩

theorem transform_overrideWith (rules : List Rule) (owner : TypeName) (m : Method) :
    (overrideWith rules).transform owner m =
      .ok ⟨owner, m.token.withModifiers (resolve rules m.token.modifiers)⟩ :=
  rfl

/-- A run without custom policies returns, with the rules of all leaves resolved. -/
theorem transform_of_policies_eq_override {t : Transformer} {lists : List (List Rule)}
    (h : t.policies = lists.map .override) (owner : TypeName) (m : Method) :
    t.transform owner m = .ok (m.rebind owner t.policies
      (m.token.withModifiers (resolve lists.flatten m.token.modifiers))) := by
  rw [transform_eq, h, Policy.runAll_map_override]
  rfl

/-- The rules of all leaves, from left to right; a custom policy has none. -/
def rules (t : Transformer) : List Rule :=
  t.policies.flatMap fun
    | .override rules => rules
    | .custom _ => []

/-- A run without custom policies resolves the rules of the tree. -/
theorem transform_of_rulesOnly {t : Transformer} (h : t.RulesOnly) (owner : TypeName) (m : Method) :
    t.transform owner m = .ok (m.rebind owner t.policies
      (m.token.withModifiers (resolve t.rules m.token.modifiers))) := by
  have hlists : ∀ ps : List Policy, (∀ p ∈ ps, ∃ rules, p = .override rules) →
      ∃ lists : List (List Rule), ps = lists.map .override := by
    intro ps hps
    induction ps with
    | nil => exact ⟨[], rfl⟩
    | cons p ps ih =>
      obtain ⟨rules, rfl⟩ := hps p List.mem_cons_self
      obtain ⟨lists, rfl⟩ := ih fun q hq => hps q (List.mem_cons_of_mem _ hq)
      exact ⟨rules :: lists, rfl⟩
  obtain ⟨lists, hpolicies⟩ := hlists t.policies h
  have hrules : t.rules = lists.flatten := by
    rw [rules, hpolicies, List.flatMap_map, List.flatMap_id']
  rw [hrules]
  exact transform_of_policies_eq_override hpolicies owner m

/-! ## Running again -/

/-- Without custom policies a run forgets an earlier run of the same tree, on whichever type. -/
theorem transform_bind_transform_of_rulesOnly {t : Transformer} (h : t.RulesOnly)
    (first second : TypeName) (m : Method) :
    t.transform first m >>= t.transform second = t.transform second m := by
  have hbind : t.transform first m >>= t.transform second =
      t.transform second (m.rebind first t.policies
        (m.token.withModifiers (resolve t.rules m.token.modifiers))) := by
    rw [transform_of_rulesOnly h first m]
    rfl
  rw [hbind, transform_of_rulesOnly h, transform_of_rulesOnly h, Method.rebind_rebind_same,
    Method.rebind_token, MethodToken.modifiers_withModifiers, Rule.resolve_resolve,
    MethodToken.withModifiers_withModifiers]

/-- A transformer without custom policies may run again on what it has returned: on another type the
result is what that run makes of the method itself, and on the same type it is the method that is
there already. -/
theorem transform_again_of_rulesOnly {t : Transformer} (h : t.RulesOnly) (m : Method) :
    (∀ first second, ∃ m₁ m₂, t.transform first m = .ok m₁ ∧ t.transform second m = .ok m₂ ∧
      t.transform second m₁ = .ok m₂) ∧
    ∀ owner, ∃ m', t.transform owner m = .ok m' ∧ t.transform owner m' = .ok m' := by
  have hagain : ∀ first second m₁, t.transform first m = .ok m₁ →
      t.transform second m₁ = t.transform second m := by
    intro first second m₁ hfirst
    rw [← transform_bind_transform_of_rulesOnly h first second m, hfirst]
    rfl
  constructor
  · intro first second
    have hfirst := transform_of_rulesOnly h first m
    have hsecond := transform_of_rulesOnly h second m
    exact ⟨_, _, hfirst, hsecond, (hagain first second _ hfirst).trans hsecond⟩
  · intro owner
    have hrun := transform_of_rulesOnly h owner m
    exact ⟨_, hrun, (hagain owner owner _ hrun).trans hrun⟩

/-- Rules of nested leaves that undo one another, with stray bits, on two types in a row. -/
theorem transform_again_of_rulesOnly_of_conflicting_rules :
    let t := compound [overrideWith [⟨.ofNat 0x0007, .ofNat 0x8001⟩], noOp,
      compound [overrideWith [⟨.ofNat 0x8001, .ofNat 0x0006⟩, ⟨.ofNat 0x0002, .ofNat 0x4008⟩]]]
    let token : MethodToken := { name := "run", modifiers := .ofNat 0x0019, returnType := .void }
    t.RulesOnly ∧
      t.transform ⟨"A"⟩ ⟨⟨"Declared"⟩, token⟩ =
        .ok ⟨⟨"A"⟩, token.withModifiers (.ofNat 0x401c)⟩ ∧
      t.transform ⟨"B"⟩ ⟨⟨"A"⟩, token.withModifiers (.ofNat 0x401c)⟩ =
        .ok ⟨⟨"B"⟩, token.withModifiers (.ofNat 0x401c)⟩ := by
  intro t token
  have hnested : (compound [overrideWith [⟨.ofNat 0x8001, .ofNat 0x0006⟩,
      ⟨.ofNat 0x0002, .ofNat 0x4008⟩]]).RulesOnly :=
    rulesOnly_compound.mpr (List.forall_mem_singleton.mpr (rulesOnly_overrideWith _))
  have ht : t.RulesOnly := by
    refine rulesOnly_compound.mpr (List.forall_mem_cons.mpr ⟨rulesOnly_overrideWith _, ?_⟩)
    exact List.forall_mem_cons.mpr ⟨rulesOnly_noOp, List.forall_mem_singleton.mpr hnested⟩
  have hflags : resolve t.rules token.modifiers = .ofNat 0x401c := by decide
  have hrun : ∀ owner, t.transform owner ⟨⟨"Declared"⟩, token⟩ =
      .ok ⟨owner, token.withModifiers (.ofNat 0x401c)⟩ := by
    intro owner
    rw [← hflags]
    exact transform_of_rulesOnly ht owner _
  obtain ⟨m₁, m₂, hfirst, hsecond, hagain⟩ :=
    (transform_again_of_rulesOnly ht ⟨⟨"Declared"⟩, token⟩).1 ⟨"A"⟩ ⟨"B"⟩
  rw [hrun, Except.ok.injEq] at hfirst hsecond
  subst hfirst hsecond
  exact ⟨ht, hrun ⟨"A"⟩, hagain⟩

/-! ## Trees as one rule -/

section OneRule

variable {t u : Transformer}

/-- With a leaf, a run binds the method to the type and applies the rule that the rules of the tree
collapse to. -/
theorem transform_eq_apply_collapse (h : t.RulesOnly) (hleaf : t.policies ≠ []) (owner : TypeName)
    (m : Method) : t.transform owner m =
      .ok ⟨owner, m.token.withModifiers ((Rule.collapse t.rules).apply m.token.modifiers)⟩ := by
  have hbound : t.policies.isEmpty = false := by
    simpa using hleaf
  rw [transform_of_rulesOnly h, Rule.resolve_eq_apply_collapse, Method.rebind, hbound]
  rfl

theorem sameEffect_overrideWith_collapse (h : t.RulesOnly) (hleaf : t.policies ≠ []) :
    t.SameEffect (overrideWith [Rule.collapse t.rules]) := by
  intro owner m
  rw [transform_eq_apply_collapse h hleaf, transform_overrideWith]
  rfl

/-- Trees with leaves act alike exactly if their rules collapse to rules that act alike. -/
theorem sameEffect_iff_apply_collapse (ht : t.RulesOnly) (htleaf : t.policies ≠ [])
    (hu : u.RulesOnly) (huleaf : u.policies ≠ []) :
    t.SameEffect u ↔
      ∀ m, (Rule.collapse t.rules).apply m = (Rule.collapse u.rules).apply m := by
  constructor
  · intro h flags
    have hrun := h ⟨"Owner"⟩
      ⟨⟨"Owner"⟩, { name := "", modifiers := flags, returnType := .void }⟩
    rw [transform_eq_apply_collapse ht htleaf, transform_eq_apply_collapse hu huleaf] at hrun
    exact congrArg (fun m : Method => m.token.modifiers) (Except.ok.inj hrun)
  · intro h owner m
    rw [transform_eq_apply_collapse ht htleaf, transform_eq_apply_collapse hu huleaf, h]

end OneRule

/-- A tree without custom policies that has a leaf acts as one rule on every method of every type:
its range is the union of all ranges and its mask what the rules set one after the other on nothing.
Two such trees act alike exactly if their rules collapse to one mask and govern the same bits. -/
theorem acts_as_collapsed_rule :
    (∀ t : Transformer, t.RulesOnly → t.policies ≠ [] → ∀ owner m,
      t.transform owner m = (overrideWith [Rule.collapse t.rules]).transform owner m) ∧
    ∀ t u : Transformer, t.RulesOnly → t.policies ≠ [] → u.RulesOnly → u.policies ≠ [] →
      ((∀ owner m, t.transform owner m = u.transform owner m) ↔
        (Rule.collapse t.rules).mask = (Rule.collapse u.rules).mask ∧
          (Rule.collapse t.rules).range.union (Rule.collapse t.rules).mask =
            (Rule.collapse u.rules).range.union (Rule.collapse u.rules).mask) := by
  constructor
  · intro t h hleaf
    exact sameEffect_overrideWith_collapse h hleaf
  · intro t u ht htleaf hu huleaf
    have hact := sameEffect_iff_apply_collapse ht htleaf hu huleaf
    exact hact.trans (Rule.apply_eq_apply_iff _ _)

/-- A nested tree and a single rule act alike although they clear different bits: the mask of the
single rule sets the high bit without clearing it.  Without that bit in the mask they do not. -/
theorem acts_as_collapsed_rule_of_stray_bit :
    let t := compound [overrideWith [⟨.ofNat 0x8000, .ofNat 0x8008⟩], noOp,
      compound [overrideWith [⟨.ofNat 0x000f, .ofNat 0x0001⟩]]]
    let u := overrideWith [⟨.ofNat 0x000f, .ofNat 0x8001⟩]
    let v := overrideWith [⟨.ofNat 0x000f, .ofNat 0x0001⟩]
    t.RulesOnly ∧ u.RulesOnly ∧ v.RulesOnly ∧
      Rule.collapse t.rules = ⟨.ofNat 0x800f, .ofNat 0x8001⟩ ∧
      (∀ owner m, t.transform owner m =
        (overrideWith [⟨.ofNat 0x800f, .ofNat 0x8001⟩]).transform owner m) ∧
      (∀ owner m, t.transform owner m = u.transform owner m) ∧
      ¬ ∀ owner m, t.transform owner m = v.transform owner m := by
  intro t u v
  have hu : u.RulesOnly := rulesOnly_overrideWith _
  have hv : v.RulesOnly := rulesOnly_overrideWith _
  have ht : t.RulesOnly := by
    have hnested : (compound [v]).RulesOnly :=
      rulesOnly_compound.mpr (List.forall_mem_singleton.mpr hv)
    refine rulesOnly_compound.mpr (List.forall_mem_cons.mpr ⟨rulesOnly_overrideWith _, ?_⟩)
    exact List.forall_mem_cons.mpr ⟨rulesOnly_noOp, List.forall_mem_singleton.mpr hnested⟩
  have hcollapse : Rule.collapse t.rules = ⟨.ofNat 0x800f, .ofNat 0x8001⟩ := by decide
  have hleaf : t.policies ≠ [] := List.cons_ne_nil _ _
  have halike := acts_as_collapsed_rule.2 t u ht hleaf hu (List.cons_ne_nil _ _)
  have hdiffer := acts_as_collapsed_rule.2 t v ht hleaf hv (List.cons_ne_nil _ _)
  refine ⟨ht, hu, hv, hcollapse, ?_, halike.mpr (by decide), ?_⟩
  · rw [← hcollapse]
    exact acts_as_collapsed_rule.1 t ht hleaf
  · intro h
    exact absurd (hdiffer.mp h) (by decide)

end Transformer

end Redeclare
