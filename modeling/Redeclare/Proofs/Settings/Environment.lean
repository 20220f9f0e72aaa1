import Mathlib.Tactic.SplitIfs
import Redeclare.Proofs.Settings.Layers
import Redeclare.Settings.Environment

/-!
# What an environment sets

The settings of an environment are settled: its groups are in order, and no value
of a variable is null (`settled_settings`).  A key is set exactly if there is a
variable whose name begins with it (`lookup_settings_ne_none_iff`).
-/

namespace Redeclare.Environment

open SettingTree (Settled)

/-! ## Values -/

theorem bare_ne_null (cs : List Char) : bare cs ≠ .null := by
  unfold bare
  split
  · exact nofun
  · split
    · exact nofun
    · split <;> exact nofun

/-- What is read with this fuel is settled.  The entries of a group are read behind others. -/
structure ReadsSettled (fuel : Nat) : Prop where
  value : ∀ cs tree rest, readValue fuel cs = some (tree, rest) → Settled tree
  items : ∀ cs items rest, readItems fuel cs = some (items, rest) → ∀ t ∈ items, Settled t
  entries : ∀ before cs entries rest, readEntries fuel before cs = some (entries, rest) →
    InOrder before → (∀ e ∈ before, Settled e.2) → InOrder entries ∧ ∀ e ∈ entries, Settled e.2

namespace ReadsSettled

variable {fuel : Nat}

theorem value_succ (h : ReadsSettled fuel) {cs rest : List Char} {tree : SettingTree}
    (hread : readValue (fuel + 1) cs = some (tree, rest)) : Settled tree := by
  rw [readValue, Option.map_eq_some_iff] at hread
  obtain ⟨⟨tree', rest'⟩, hread, heq⟩ := hread
  obtain ⟨rfl, -⟩ := Prod.mk.inj heq
  split at hread
  · obtain ⟨rfl, -⟩ := Prod.mk.inj (Option.some.inj hread)
    exact .leaf nofun
  · obtain ⟨rfl, -⟩ := Prod.mk.inj (Option.some.inj hread)
    exact .leaf nofun
  · split at hread
    · obtain ⟨⟨entries, rest''⟩, hentries, heq⟩ := Option.map_eq_some_iff.mp hread
      obtain ⟨rfl, -⟩ := Prod.mk.inj heq
      obtain ⟨horder, hsettled⟩ := h.entries _ _ _ _ hentries .nil nofun
      exact .group horder hsettled
    · obtain ⟨⟨items, rest''⟩, hitems, heq⟩ := Option.map_eq_some_iff.mp hread
      obtain ⟨rfl, -⟩ := Prod.mk.inj heq
      exact .list (h.items _ _ _ hitems)
    · obtain ⟨⟨s, rest''⟩, -, heq⟩ := Option.map_eq_some_iff.mp hread
      obtain ⟨rfl, -⟩ := Prod.mk.inj heq
      exact .leaf nofun
    · split at hread
      · obtain ⟨rfl, -⟩ := Prod.mk.inj (Option.some.inj hread)
        exact .leaf nofun
      · exact nomatch hread
    · obtain ⟨rfl, -⟩ := Prod.mk.inj (Option.some.inj hread)
      exact .leaf (bare_ne_null _)

theorem items_succ (h : ReadsSettled fuel) {cs rest : List Char} {items : List SettingTree}
    (hread : readItems (fuel + 1) cs = some (items, rest)) : ∀ t ∈ items, Settled t := by
  unfold readItems at hread
  split at hread
  · obtain ⟨rfl, -⟩ := Prod.mk.inj (Option.some.inj hread)
    exact nofun
  · split at hread
    · rename_i item behind hitem
      obtain ⟨⟨later, rest'⟩, hlater, heq⟩ := Option.map_eq_some_iff.mp hread
      obtain ⟨rfl, -⟩ := Prod.mk.inj heq
      rw [List.forall_mem_cons]
      exact ⟨h.value _ _ _ hitem, h.items _ _ _ hlater⟩
    · rename_i item behind hitem
      obtain ⟨rfl, -⟩ := Prod.mk.inj (Option.some.inj hread)
      rw [List.forall_mem_singleton]
      exact h.value _ _ _ hitem
    · exact nomatch hread

theorem entries_succ (h : ReadsSettled fuel) {before entries : List (String × SettingTree)}
    {cs rest : List Char} (hread : readEntries (fuel + 1) before cs = some (entries, rest))
    (horder : InOrder before) (hbefore : ∀ e ∈ before, Settled e.2) :
    InOrder entries ∧ ∀ e ∈ entries, Settled e.2 := by
  have hinsert : ∀ key value, Settled value → InOrder (insertEntry key value before) ∧
      ∀ e ∈ insertEntry key value before, Settled e.2 := by
    intro key value hvalue
    refine ⟨pairwise_insertEntry key value before horder, fun e he => ?_⟩
    rcases mem_insertEntry he with rfl | he
    · exact hvalue
    · exact hbefore e he
  unfold readEntries at hread
  split at hread
  · obtain ⟨rfl, -⟩ := Prod.mk.inj (Option.some.inj hread)
    exact ⟨horder, hbefore⟩
  · split at hread
    · exact nomatch hread
    · rename_i key behind hkey
      split at hread
      · split at hread
        · rename_i value behind hvalue
          obtain ⟨horder', hsettled⟩ := hinsert key value (h.value _ _ _ hvalue)
          exact h.entries _ _ _ _ hread horder' hsettled
        · rename_i value behind hvalue
          obtain ⟨rfl, -⟩ := Prod.mk.inj (Option.some.inj hread)
          exact hinsert key value (h.value _ _ _ hvalue)
        · exact nomatch hread
      · exact nomatch hread

end ReadsSettled

theorem readsSettled (fuel : Nat) : ReadsSettled fuel := by
  induction fuel with
  | zero => exact ⟨nofun, nofun, nofun⟩
  | succ fuel ih =>
    exact ⟨fun _ _ _ => ih.value_succ, fun _ _ _ => ih.items_succ, fun _ _ _ _ => ih.entries_succ⟩

theorem settled_ofValue (value : String) : Settled (ofValue value) := by
  unfold ofValue
  dsimp only
  split
  · rename_i tree hread
    exact (readsSettled _).value _ _ _ hread
  · exact .leaf nofun

/-! ## Variables -/

theorem settled_nest {value : SettingTree} (h : Settled value) (keys : List String) :
    Settled (nest value keys) := by
  induction keys with
  | nil => exact h
  | cons key keys ih =>
    rw [nest]
    refine .group (List.pairwise_singleton _ _) ?_
    rw [List.forall_mem_singleton]
    exact ih

theorem inOrder_addVariable {entries : List (String × SettingTree)} (h : InOrder entries)
    (v : String × String) : InOrder (addVariable entries v) := by
  unfold addVariable
  split
  · exact SettingTree.inOrder_layerEntries h _
  · exact h

/-- A variable keeps the settings settled. -/
theorem settled_addVariable {entries : List (String × SettingTree)} (horder : InOrder entries)
    (h : ∀ e ∈ entries, Settled e.2) (v : String × String) :
    InOrder (addVariable entries v) ∧ ∀ e ∈ addVariable entries v, Settled e.2 := by
  refine ⟨inOrder_addVariable horder v, ?_⟩
  unfold addVariable
  split
  · rename_i key keys hkeys
    refine SettingTree.settled_layerEntries h ?_
    rw [List.forall_mem_singleton]
    exact settled_nest (settled_ofValue v.2) keys
  · exact h

theorem settled_settings (env : List (String × String)) :
    InOrder (settings env) ∧ ∀ e ∈ settings env, Settled e.2 := by
  have hfold : ∀ entries, InOrder entries → (∀ e ∈ entries, Settled e.2) →
      InOrder (env.foldl addVariable entries) ∧ ∀ e ∈ env.foldl addVariable entries, Settled e.2 := by
    induction env with
    | nil => exact fun entries horder h => ⟨horder, h⟩
    | cons v env ih =>
      intro entries horder h
      obtain ⟨horder', h'⟩ := settled_addVariable horder h v
      exact ih _ horder' h'
  exact hfold [] .nil nofun

/-- A key is set exactly if there is a variable whose name begins with it. -/
theorem lookup_settings_ne_none_iff {env : List (String × String)} {key : String} :
    (settings env).lookup key ≠ none ↔ ∃ v ∈ env, ∃ keys, keys? v.1 = some (key :: keys) := by
  have hvariable : ∀ entries v, (addVariable entries v).lookup key ≠ none ↔
      entries.lookup key ≠ none ∨ ∃ keys, keys? v.1 = some (key :: keys) := by
    intro entries v
    unfold addVariable
    split
    · rename_i key' keys hkeys
      have hsingle : [(key', nest (ofValue v.2) keys)].lookup key = none ↔ key ≠ key' := by
        simp [lookup_cons_eq_ite]
      rw [SettingTree.lookup_layerEntries (List.pairwise_singleton _ _), ne_eq,
        SettingTree.overlay_eq_none_iff, hsingle, hkeys]
      grind
    · rename_i hkeys
      have hnone : ¬∃ keys, keys? v.1 = some (key :: keys) := by
        rintro ⟨keys, h⟩
        exact hkeys key keys h
      simp [hnone]
  have hfold : ∀ entries, (env.foldl addVariable entries).lookup key ≠ none ↔
      entries.lookup key ≠ none ∨ ∃ v ∈ env, ∃ keys, keys? v.1 = some (key :: keys) := by
    induction env with
    | nil => simp
    | cons v env ih =>
      intro entries
      rw [List.foldl_cons, ih, hvariable, List.exists_mem_cons_iff, or_assoc]
  rw [settings, hfold]
  simp

end Redeclare.Environment
