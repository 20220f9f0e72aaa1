import Redeclare.Proofs.Modifiers.Groups
import Redeclare.Proofs.Transformer.Overrides

/-!
# Overrides by named choices

An override by names resolves the rules of its choices, and every group of
bits comes out as the last choice of that group has it.  What the names of
different groups have between them does not matter.

* `exists_lastIn_eq_some` and `lastIn_eq_none_iff` say which groups have a last
  choice; the bits of each group are `resolve_inter_range`.
* `ModifierName.length_flags_mask_le_one` and `ModifierName.flags_mask_mem` say
  which sets a choice of visibility and one of manifestation can leave.
* `SameGroupOrder` relates two lists of choices that differ in how the groups
  are interleaved, and `SameGroupOrder.resolve_eq` says that they act alike.
-/

namespace Redeclare

/-! ## Which groups are settled -/

theorem lastIn_eq_none_iff {g : Group} {names : List ModifierName} :
    lastIn g names = none ↔ ∀ n ∈ names, n.group ≠ g := by
  simp [lastIn]

theorem exists_lastIn_eq_some {g : Group} {names : List ModifierName}
    (h : ∃ n ∈ names, n.group = g) : ∃ n, lastIn g names = some n := by
  rw [← Option.isSome_iff_exists, Option.isSome_iff_ne_none, ne_eq, lastIn_eq_none_iff]
  obtain ⟨n, hn, hg⟩ := h
  exact fun hnone => hnone n hn hg

namespace ModifierName

/-- A choice of visibility sets one flag or none. -/
theorem length_flags_mask_le_one {n : ModifierName} (h : n.group = .visibility) :
    n.mask.flags.length ≤ 1 := by
  cases n <;> revert h <;> decide

/-- The flags that belong together in a choice of manifestation. -/
def manifestations : List (List Flag) :=
  [[], [.accAbstract], [.accFinal], [.accNative], [.accFinal, .accNative], [.accBridge],
    [.accFinal, .accBridge]]

theorem flags_mask_mem {n : ModifierName} (h : n.group = .manifestation) :
    n.mask.flags ∈ manifestations := by
  cases n <;> revert h <;> decide

end ModifierName

/-! ## Interleaving the groups -/

/-- Both lists have the same choices of every group in the same order. -/
def SameGroupOrder (names names' : List ModifierName) : Prop :=
  ∀ g : Group, names'.filter (fun n => n.group = g) = names.filter (fun n => n.group = g)

namespace SameGroupOrder

variable {names names' : List ModifierName} (h : SameGroupOrder names names')
include h

/-- The second list holds the choices of the first one in another order. -/
theorem perm : names'.Perm names := by
  rw [List.perm_iff_count]
  intro n
  have hcount := congrArg (List.count n) (h n.group)
  rwa [List.count_filter (by simp), List.count_filter (by simp)] at hcount

theorem resolve_eq (m : Modifiers) :
    resolve (names'.map ModifierName.rule) m = resolve (names.map ModifierName.rule) m := by
  have hlast : ∀ g, lastIn g names' = lastIn g names := by
    intro g
    rw [lastIn, h g, lastIn]
  exact (resolve_eq_iff_lastIn names' names).mpr hlast m

end SameGroupOrder

namespace Transformer

/-- An override by names returns for every method, and settles each group of access flags by itself:
the last choice of the group decides all bits of it, and a group without a choice keeps its own.  So
a choice of visibility leaves at most one of its flags and a choice of manifestation one of seven
combinations.  The four bits without a name are kept.  Choices of different groups may be
interleaved in any way. -/
theorem overrideWith_settles_each_group (names : List ModifierName) (owner : TypeName)
    (m : Method) :
    (∃ flags, (overrideWith (names.map ModifierName.rule)).transform owner m =
        .ok ⟨owner, m.token.withModifiers flags⟩ ∧
      (∀ g, (∃ n ∈ names, n.group = g) →
        ∃ n, lastIn g names = some n ∧ flags.inter g.range = n.mask) ∧
      (∀ g, (∀ n ∈ names, n.group ≠ g) →
        flags.inter g.range = m.token.modifiers.inter g.range) ∧
      ((∃ n ∈ names, n.group = .visibility) →
        (flags.inter Group.visibility.range).flags.length ≤ 1) ∧
      ((∃ n ∈ names, n.group = .manifestation) →
        (flags.inter Group.manifestation.range).flags ∈ ModifierName.manifestations) ∧
      flags.inter (.ofNat 0xe200) = m.token.modifiers.inter (.ofNat 0xe200)) ∧
    ∀ names', SameGroupOrder names names' → names'.Perm names ∧
      (overrideWith (names'.map ModifierName.rule)).transform owner m =
        (overrideWith (names.map ModifierName.rule)).transform owner m := by
  have hchosen : ∀ g, (∃ n ∈ names, n.group = g) → ∃ n, lastIn g names = some n ∧
      (resolve (names.map ModifierName.rule) m.token.modifiers).inter g.range = n.mask := by
    intro g hg
    obtain ⟨n, hn⟩ := exists_lastIn_eq_some hg
    have hbits := resolve_inter_range g names m.token.modifiers
    rw [hn] at hbits
    exact ⟨n, hn, hbits⟩
  refine ⟨⟨_, transform_overrideWith _ owner m, hchosen, ?_, ?_, ?_, ?_⟩, ?_⟩
  · intro g hg
    rw [resolve_inter_range, lastIn_eq_none_iff.mpr hg]
    rfl
  · intro hg
    obtain ⟨n, hn, hbits⟩ := hchosen _ hg
    rw [hbits]
    exact ModifierName.length_flags_mask_le_one (group_of_lastIn hn)
  · intro hg
    obtain ⟨n, hn, hbits⟩ := hchosen _ hg
    rw [hbits]
    exact ModifierName.flags_mask_mem (group_of_lastIn hn)
  · have hunnamed : Modifiers.unnamed = .ofNat 0xe200 := by decide
    rw [← hunnamed]
    exact resolve_inter_unnamed names m.token.modifiers
  · intro names' h
    refine ⟨h.perm, ?_⟩
    rw [transform_overrideWith, transform_overrideWith, h.resolve_eq]

/-- Two choices each of visibility and manifestation, with others between them, on flags that no
declaration could have.  Ownership and visibility are set anew, arity is left as it is. -/
theorem overrideWith_settles_each_group_of_interleaved :
    let names : List ModifierName :=
      [.static, .publicAccess, .final, .privateAccess, .finalNative, .notStrict]
    let names' : List ModifierName :=
      [.final, .finalNative, .notStrict, .publicAccess, .privateAccess, .static]
    let token : MethodToken := { name := "run", modifiers := .ofNat 0xebc5, returnType := .void }
    (overrideWith (names.map ModifierName.rule)).transform ⟨"A"⟩ ⟨⟨"Declared"⟩, token⟩ =
        .ok ⟨⟨"A"⟩, token.withModifiers (.ofNat 0xe39a)⟩ ∧
      ((∃ n ∈ names, n.group = .manifestation) ∧
        ∃ n, lastIn .manifestation names = some n ∧
          (Modifiers.ofNat 0xe39a).inter Group.manifestation.range = n.mask) ∧
      ((∀ n ∈ names, n.group ≠ .arity) ∧
        (Modifiers.ofNat 0xe39a).inter Group.arity.range =
          (Modifiers.ofNat 0xebc5).inter Group.arity.range) ∧
      SameGroupOrder names names' ∧ names'.Perm names ∧
      (overrideWith (names'.map ModifierName.rule)).transform ⟨"A"⟩ ⟨⟨"Declared"⟩, token⟩ =
        .ok ⟨⟨"A"⟩, token.withModifiers (.ofNat 0xe39a)⟩ := by
  intro names names' token
  have hflags : resolve (names.map ModifierName.rule) token.modifiers = .ofNat 0xe39a := by decide
  have hrun : (overrideWith (names.map ModifierName.rule)).transform ⟨"A"⟩ ⟨⟨"Declared"⟩, token⟩ =
      .ok ⟨⟨"A"⟩, token.withModifiers (.ofNat 0xe39a)⟩ := by
    rw [transform_overrideWith, hflags]
  have hchosen : ∃ n ∈ names, n.group = .manifestation := ⟨.final, by decide, rfl⟩
  have hfree : ∀ n ∈ names, n.group ≠ .arity := by decide
  have horder : SameGroupOrder names names' := by
    intro g
    cases g <;> rfl
  obtain ⟨⟨flags, hsettled, hlast, hkept, -⟩, hreorder⟩ :=
    overrideWith_settles_each_group names ⟨"A"⟩ ⟨⟨"Declared"⟩, token⟩
  have heq : flags = .ofNat 0xe39a := by
    rw [hrun, Except.ok.injEq] at hsettled
    exact congrArg (fun m : Method => m.token.modifiers) hsettled.symm
  subst heq
  obtain ⟨hperm, hsame⟩ := hreorder names' horder
  exact ⟨hrun, ⟨hchosen, hlast _ hchosen⟩, ⟨hfree, hkept _ hfree⟩, horder, hperm,
    hsame.trans hrun⟩

end Transformer

end Redeclare
