import Redeclare.Proofs.KeyMap
import Redeclare.Settings.Tree

/-!
# Settings over settings

What layering makes of each key, and what it keeps.  Two groups become one with
the keys of both; anything else that lies above takes the place of what is
below.

* `lookup_layerEntries` gives the setting of a key by the settings of the two
  layers.
* `exists_layerEntries_eq_of_lt` and `exists_layerEntries_eq_of_le` give the
  first entry of two groups, which decides what a variant in a group is.
* `Settled` trees have their groups in order and no setting that is null;
  layering keeps them settled.
-/

namespace Redeclare

namespace SettingTree

/-! ## The settings of a key -/

/-- What two layers make of one setting, which each of them may leave out. -/
def overlay : Option SettingTree → Option SettingTree → Option SettingTree
  | below, none => below
  | none, some above => some above
  | some below, some above => some (layer below above)

theorem overlay_none_left (above : Option SettingTree) : overlay none above = above := by
  cases above <;> rfl

theorem layer_leaf (below : SettingTree) (origin : Origin) (l : Leaf) :
    layer below (.leaf origin l) = .leaf origin l := by
  unfold layer
  rfl

theorem layer_list (below : SettingTree) (origin : Origin) (items : List SettingTree) :
    layer below (.list origin items) = .list origin items := by
  unfold layer
  rfl

theorem layer_group_group {origin origin' : Origin} {lower upper : List (String × SettingTree)} :
    layer (.group origin' lower) (.group origin upper) = .group origin (layerEntries lower upper) := by
  rw [layer]

/-- A setting that is no group is replaced. -/
theorem layer_of_not_group {below above : SettingTree}
    (h : ∀ origin lower, below ≠ .group origin lower) : layer below above = above := by
  cases above with
  | group origin upper =>
    cases below with
    | group origin' lower => exact absurd rfl (h origin' lower)
    | _ =>
      rw [layer]
      exact h
  | leaf origin l => exact layer_leaf below origin l
  | list origin items => exact layer_list below origin items

theorem lookup_layerEntries {lower upper : List (String × SettingTree)} (h : InOrder upper)
    (key : String) :
    (layerEntries lower upper).lookup key = overlay (lower.lookup key) (upper.lookup key) := by
  induction upper generalizing lower with
  | nil => rw [layerEntries, List.lookup_nil, overlay]
  | cons e upper ih =>
    obtain ⟨k, above⟩ := e
    rw [layerEntries, ih h.tail, lookup_insertEntry, lookup_cons_eq_ite]
    split_ifs with hkey
    · subst hkey
      rw [h.lookup_tail]
      cases lower.lookup key <;> rfl
    · rfl

theorem inOrder_layerEntries {lower : List (String × SettingTree)} (h : InOrder lower)
    (upper : List (String × SettingTree)) : InOrder (layerEntries lower upper) := by
  induction upper generalizing lower with
  | nil => rwa [layerEntries]
  | cons e upper ih =>
    obtain ⟨k, above⟩ := e
    rw [layerEntries]
    exact ih (pairwise_insertEntry k _ lower h)

/-- The settings of certain keys are those of the two layers, laid over each other. -/
theorem filter_layerEntries (p : String → Bool) {lower upper : List (String × SettingTree)}
    (hlower : InOrder lower) (hupper : InOrder upper) :
    (layerEntries lower upper).filter (fun e => p e.1) =
      layerEntries (lower.filter fun e => p e.1) (upper.filter fun e => p e.1) := by
  refine ((inOrder_layerEntries hlower _).filter _).eq_of_lookup_eq
    (inOrder_layerEntries (hlower.filter _) _) fun key => ?_
  rw [lookup_layerEntries (hupper.filter _), lookup_filter, lookup_filter, lookup_filter,
    lookup_layerEntries hupper]
  split_ifs <;> rfl

/-- A layer's setting is not lost, and nothing else is found. -/
theorem overlay_eq_none_iff {below above : Option SettingTree} :
    overlay below above = none ↔ below = none ∧ above = none := by
  cases below <;> cases above <;> simp [overlay]

section Head

variable {lower upper : List (String × SettingTree)} {k k' : String} {below above : SettingTree}

/-- The least key of two groups is the lesser of their first keys. -/
theorem le_of_lookup_layerEntries (hlower : InOrder ((k, below) :: lower))
    (hupper : InOrder ((k', above) :: upper)) {key : String} {tree : SettingTree}
    (h : (layerEntries ((k, below) :: lower) ((k', above) :: upper)).lookup key = some tree) :
    k ≤ key ∨ k' ≤ key := by
  rw [lookup_layerEntries hupper] at h
  cases hbelow : ((k, below) :: lower).lookup key with
  | some t => exact .inl (hlower.head_le hbelow)
  | none =>
    cases habove : ((k', above) :: upper).lookup key with
    | some t => exact .inr (hupper.head_le habove)
    | none =>
      rw [overlay_eq_none_iff.mpr ⟨hbelow, habove⟩] at h
      exact nomatch h

/-- Where the first key of the lower group is the lesser one, its entry is the first of both. -/
theorem exists_layerEntries_eq_of_lt (hlower : InOrder ((k, below) :: lower))
    (hupper : InOrder ((k', above) :: upper)) (h : k < k') :
    ∃ rest, layerEntries ((k, below) :: lower) ((k', above) :: upper) = (k, below) :: rest := by
  rw [(inOrder_layerEntries hlower _).exists_eq_cons_iff, lookup_layerEntries hupper,
    hupper.lookup_eq_none_of_lt h]
  refine ⟨by simp [overlay], fun key tree htree => ?_⟩
  rcases le_of_lookup_layerEntries hlower hupper htree with hle | hle
  · exact hle
  · exact Std.le_of_lt (Std.lt_of_lt_of_le h hle)

/-- Where the first key of the upper group is not the greater one, its entry is the first of both. -/
theorem exists_layerEntries_eq_of_le (hlower : InOrder ((k, below) :: lower))
    (hupper : InOrder ((k', above) :: upper)) (h : k' ≤ k) :
    ∃ rest, layerEntries ((k, below) :: lower) ((k', above) :: upper) =
      (k', if k = k' then layer below above else above) :: rest := by
  rw [(inOrder_layerEntries hlower _).exists_eq_cons_iff, lookup_layerEntries hupper]
  refine ⟨?_, fun key tree htree => ?_⟩
  · split_ifs with heq
    · subst heq
      simp [overlay]
    · have hlt : k' < k := Std.lt_of_le_of_ne h (Ne.symm heq)
      simp [hlower.lookup_eq_none_of_lt hlt, overlay]
  · rcases le_of_lookup_layerEntries hlower hupper htree with hle | hle
    · exact Std.le_trans h hle
    · exact hle

end Head

/-! ## Settled trees -/

/-- The groups of the tree are in order, and none of its settings is null. -/
inductive Settled : SettingTree → Prop where
  | leaf {origin : Origin} {l : Leaf} (h : l ≠ .null) : Settled (.leaf origin l)
  | list {origin : Origin} {items : List SettingTree} (h : ∀ t ∈ items, Settled t) :
      Settled (.list origin items)
  | group {origin : Origin} {entries : List (String × SettingTree)} (horder : InOrder entries)
      (h : ∀ e ∈ entries, Settled e.2) : Settled (.group origin entries)

theorem Settled.inOrder {origin : Origin} {entries : List (String × SettingTree)}
    (h : Settled (.group origin entries)) : InOrder entries := by
  cases h with
  | group horder _ => exact horder

theorem Settled.of_mem {origin : Origin} {entries : List (String × SettingTree)}
    (h : Settled (.group origin entries)) {e : String × SettingTree} (he : e ∈ entries) :
    Settled e.2 := by
  cases h with
  | group _ h => exact h e he

mutual

theorem Settled.layer {below above : SettingTree} (hbelow : Settled below) (habove : Settled above) :
    Settled (layer below above) := by
  match above, habove with
  | .leaf origin l, habove => exact layer_leaf below origin l ▸ habove
  | .list origin items, habove => exact layer_list below origin items ▸ habove
  | .group origin upper, habove =>
    cases hbelow with
    | @group origin' lower horder h =>
      have hupper : ∀ e ∈ upper, Settled e.2 := fun e he => habove.of_mem he
      rw [layer_group_group]
      exact .group (inOrder_layerEntries horder upper) (settled_layerEntries h hupper)
    | leaf _ | list _ =>
      rw [layer_of_not_group (by intro _ _ heq; exact nomatch heq)]
      exact habove

theorem settled_layerEntries {lower upper : List (String × SettingTree)}
    (hlower : ∀ e ∈ lower, Settled e.2) (hupper : ∀ e ∈ upper, Settled e.2) :
    ∀ e ∈ layerEntries lower upper, Settled e.2 := by
  match upper with
  | [] => rwa [layerEntries]
  | (key, above) :: upper =>
    have habove : Settled above := hupper _ List.mem_cons_self
    rw [layerEntries]
    apply settled_layerEntries _ (fun e he => hupper e (List.mem_cons_of_mem _ he))
    intro e he
    rcases mem_insertEntry he with rfl | he
    · dsimp only
      split
      · rename_i below hbelow
        exact Settled.layer (hlower _ (mem_of_lookup hbelow)) habove
      · exact habove
    · exact hlower e he

end

end SettingTree

end Redeclare
