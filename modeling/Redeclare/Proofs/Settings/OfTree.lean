import Redeclare.Proofs.KeyMap
import Redeclare.Proofs.Reading.Run
import Redeclare.Settings.OfTree

/-!
# What settings are read as

When the reading of a tree of settings goes through, and what it then gives.
Where a setting is made and the keys on the way to it only matter for faults.

* `readItems_eq_ok_iff` and `Plan.ofTrees_eq_ok_iff` read a list item by item.
* `Plan.ofTree_eq_ok_iff` reads a plan: a text is the plan of that name, and of a
  group the first entry alone decides, by `Plan.ContentOf`.
* `Settings.ofEntries_eq_ok_iff` reads settings key by key, by `Stated`.
-/

namespace Redeclare

/-! ## Readings -/

namespace Reading

variable {α : Type} {read : Reading α} {a : α}

theorem below_eq_ok_iff {key : String} : below key read = .ok a ↔ read = .ok a :=
  mapError_eq_ok_iff

theorem made_eq_ok_iff {origin : Origin} : made origin read = .ok a ↔ read = .ok a :=
  mapError_eq_ok_iff

theorem refuse_ne_ok {cause : SettingFault.Cause} : (refuse cause : Reading α) ≠ .ok a :=
  fun h => nomatch h

end Reading

namespace SettingTree

variable {α : Type} {t : SettingTree}

theorem wrongKind_ne_ok {expected : Expected} {a : α} : t.wrongKind expected ≠ .ok a :=
  fun h => nomatch h

theorem readUnit_eq_ok_iff {u : Unit} : t.readUnit = .ok u ↔ ∃ origin, t = .leaf origin .null := by
  constructor
  · intro h
    unfold readUnit at h
    split at h
    · exact ⟨_, rfl⟩
    · exact absurd h wrongKind_ne_ok
  · rintro ⟨origin, rfl⟩
    rfl

theorem readBool_eq_ok_iff {b : Bool} :
    t.readBool = .ok b ↔ ∃ origin, t = .leaf origin (.bool b) := by
  constructor
  · intro h
    unfold readBool at h
    split at h
    · obtain rfl := Except.ok.inj h
      exact ⟨_, rfl⟩
    · exact absurd h wrongKind_ne_ok
  · rintro ⟨origin, rfl⟩
    rfl

theorem readItems_eq_ok_iff {read : SettingTree → Reading α} {i : Nat} {ts : List SettingTree}
    {as : List α} :
    readItems read i ts = .ok as ↔ List.Forall₂ (fun t a => read t = .ok a) ts as := by
  induction ts generalizing i as with
  | nil =>
    rw [readItems, List.forall₂_nil_left_iff]
    exact ⟨fun h => (Except.ok.inj h).symm, fun h => congrArg _ h.symm⟩
  | cons t ts ih =>
    rw [readItems, List.forall₂_cons_left_iff]
    simp only [bind_eq_ok_iff, Reading.below_eq_ok_iff, ih]
    constructor
    · rintro ⟨a, ha, rest, hrest, h⟩
      exact ⟨a, rest, ha, hrest, (Except.ok.inj h).symm⟩
    · rintro ⟨a, rest, ha, hrest, rfl⟩
      exact ⟨a, ha, rest, hrest, rfl⟩

theorem readList_eq_ok_iff {read : SettingTree → Reading α} {as : List α} :
    readList read t = .ok as ↔ ∃ origin items, t = .list origin items ∧
      List.Forall₂ (fun t a => read t = .ok a) items as := by
  cases t with
  | list origin items =>
    simp only [readList, Reading.made_eq_ok_iff, readItems_eq_ok_iff]
    constructor
    · intro h
      exact ⟨origin, items, rfl, h⟩
    · rintro ⟨origin', items', heq, h⟩
      obtain ⟨-, rfl⟩ := SettingTree.list.inj heq
      exact h
  | _ =>
    refine ⟨fun h => absurd h wrongKind_ne_ok, ?_⟩
    rintro ⟨_, _, heq, -⟩
    exact nomatch heq

/-- A variant without content is the text of its name, or a group that starts with its name. -/
theorem readChoice_eq_ok_iff {kind : VariantKind} {known : List α} {text : α → String} {a : α} :
    readChoice kind known text t = .ok a ↔ ∃ name, known.find? (text · == name) = some a ∧
      ((∃ origin, t = .leaf origin (.text name)) ∨
        ∃ origin origin' rest, t = .group origin ((name, .leaf origin' .null) :: rest)) := by
  constructor
  · intro h
    unfold readChoice at h
    dsimp only at h
    split at h
    · rename_i origin name
      rw [Reading.made_eq_ok_iff] at h
      split at h
      · rename_i a' hname
        exact ⟨name, Except.ok.inj h ▸ hname, .inl ⟨origin, rfl⟩⟩
      · exact absurd h Reading.refuse_ne_ok
    · rename_i origin key content rest
      rw [Reading.made_eq_ok_iff, bind_eq_ok_iff] at h
      obtain ⟨a', hkey, h⟩ := h
      obtain ⟨u, hcontent, h⟩ := bind_eq_ok_iff.mp h
      obtain rfl := Except.ok.inj h
      obtain ⟨origin', rfl⟩ := readUnit_eq_ok_iff.mp (Reading.below_eq_ok_iff.mp hcontent)
      rw [Reading.below_eq_ok_iff] at hkey
      split at hkey
      · rename_i a hname
        exact ⟨key, Except.ok.inj hkey ▸ hname, .inr ⟨origin, origin', rest, rfl⟩⟩
      · exact absurd hkey Reading.refuse_ne_ok
    · exact absurd h wrongKind_ne_ok
    · exact absurd h wrongKind_ne_ok
  · rintro ⟨name, hname, ⟨origin, rfl⟩ | ⟨origin, origin', rest, rfl⟩⟩
    · refine Reading.made_eq_ok_iff.mpr ?_
      dsimp only
      rw [hname]
    · refine Reading.made_eq_ok_iff.mpr (bind_eq_ok_iff.mpr ⟨a, Reading.below_eq_ok_iff.mpr ?_, rfl⟩)
      dsimp only
      rw [hname]

end SettingTree

/-! ## Plans -/

namespace Plan

/-- Reads a named choice from a tree. -/
abbrev nameOfTree : SettingTree → Reading ModifierName :=
  SettingTree.readChoice .modifierName ModifierName.all ModifierName.text

/-- A variant's name and its content are those of a plan. -/
inductive ContentOf : String → SettingTree → Plan → Prop where
  | noop (origin : Origin) : ContentOf "noop" (.leaf origin .null) .noop
  | override {origin : Origin} {items : List SettingTree} {names : List ModifierName}
      (h : List.Forall₂ (fun t n => nameOfTree t = .ok n) items names) :
      ContentOf "override" (.list origin items) (.override names)
  | chain {origin : Origin} {items : List SettingTree} {plans : List Plan}
      (h : List.Forall₂ (fun t p => ofTree t = .ok p) items plans) :
      ContentOf "chain" (.list origin items) (.chain plans)

theorem contentOf_override_iff {content : SettingTree} {p : Plan} :
    ContentOf "override" content p ↔ ∃ origin items names, content = .list origin items ∧
      List.Forall₂ (fun t n => nameOfTree t = .ok n) items names ∧ p = .override names := by
  constructor
  · generalize hkey : "override" = key
    rintro (_ | hnames | _)
    · exact absurd hkey (by decide)
    · exact ⟨_, _, _, rfl, hnames, rfl⟩
    · exact absurd hkey (by decide)
  · rintro ⟨origin, items, names, rfl, hnames, rfl⟩
    exact .override hnames

theorem contentOf_chain_iff {content : SettingTree} {p : Plan} :
    ContentOf "chain" content p ↔ ∃ origin items plans, content = .list origin items ∧
      List.Forall₂ (fun t p => ofTree t = .ok p) items plans ∧ p = .chain plans := by
  constructor
  · generalize hkey : "chain" = key
    rintro (_ | _ | hplans)
    · exact absurd hkey (by decide)
    · exact absurd hkey (by decide)
    · exact ⟨_, _, _, rfl, hplans, rfl⟩
  · rintro ⟨origin, items, plans, rfl, hplans, rfl⟩
    exact .chain hplans

theorem ofTrees_eq_ok_iff {i : Nat} {ts : List SettingTree} {plans : List Plan} :
    ofTrees i ts = .ok plans ↔ List.Forall₂ (fun t p => ofTree t = .ok p) ts plans := by
  induction ts generalizing i plans with
  | nil =>
    rw [ofTrees, List.forall₂_nil_left_iff]
    exact ⟨fun h => (Except.ok.inj h).symm, fun h => congrArg _ h.symm⟩
  | cons t ts ih =>
    rw [ofTrees, List.forall₂_cons_left_iff]
    simp only [bind_eq_ok_iff, Reading.below_eq_ok_iff, ih]
    constructor
    · rintro ⟨p, hp, rest, hrest, h⟩
      exact ⟨p, rest, hp, hrest, (Except.ok.inj h).symm⟩
    · rintro ⟨p, rest, hp, hrest, rfl⟩
      exact ⟨p, hp, rest, hrest, rfl⟩

/-- Of a group the first entry alone decides. -/
theorem ofTree_group_eq_ok_iff {origin : Origin} {key : String} {content : SettingTree}
    {rest : List (String × SettingTree)} {p : Plan} :
    ofTree (.group origin ((key, content) :: rest)) = .ok p ↔ ContentOf key content p := by
  unfold ofTree
  rw [Reading.made_eq_ok_iff, Reading.below_eq_ok_iff]
  constructor
  · intro h
    split_ifs at h with hnoop hoverride hchain
    · obtain ⟨u, hunit, rfl⟩ := map_eq_ok_iff.mp h
      obtain ⟨origin', rfl⟩ := SettingTree.readUnit_eq_ok_iff.mp hunit
      exact eq_of_beq hnoop ▸ .noop origin'
    · obtain ⟨names, hnames, rfl⟩ := map_eq_ok_iff.mp h
      obtain ⟨origin', items, rfl, hitems⟩ := SettingTree.readList_eq_ok_iff.mp hnames
      exact eq_of_beq hoverride ▸ .override hitems
    · cases content with
      | list origin' items =>
        obtain ⟨plans, hplans, rfl⟩ := map_eq_ok_iff.mp (Reading.made_eq_ok_iff.mp h)
        exact eq_of_beq hchain ▸ .chain (ofTrees_eq_ok_iff.mp hplans)
      | _ => exact absurd h SettingTree.wrongKind_ne_ok
    · exact nomatch h
  · rintro (origin' | hitems | hitems)
    · rfl
    · exact map_eq_ok_iff.mpr ⟨_, SettingTree.readList_eq_ok_iff.mpr ⟨_, _, rfl, hitems⟩, rfl⟩
    · exact Reading.made_eq_ok_iff.mpr (map_eq_ok_iff.mpr ⟨_, ofTrees_eq_ok_iff.mpr hitems, rfl⟩)

/-- A tree is a plan if it is the text of a plan without content, or a group that starts with the
entry of a plan. -/
theorem ofTree_eq_ok_iff {t : SettingTree} {p : Plan} : ofTree t = .ok p ↔
    (∃ origin, t = .leaf origin (.text "noop") ∧ p = .noop) ∨
      ∃ origin key content rest, t = .group origin ((key, content) :: rest) ∧
        ContentOf key content p := by
  constructor
  · intro h
    match t with
    | .leaf origin (.text name) =>
      unfold ofTree at h
      split_ifs at h with hnoop hcontent
      · exact .inl ⟨origin, eq_of_beq hnoop ▸ rfl, (Except.ok.inj h).symm⟩
      · exact nomatch h
      · exact nomatch h
    | .group origin ((key, content) :: rest) =>
      exact .inr ⟨origin, key, content, rest, rfl, ofTree_group_eq_ok_iff.mp h⟩
    | .group _ [] | .list .. | .leaf _ .null | .leaf _ (.bool _) | .leaf _ (.natural _)
    | .leaf _ (.signed _) | .leaf _ (.float _) | .leaf _ (.char _) => exact nomatch h
  · rintro (⟨origin, rfl, rfl⟩ | ⟨origin, key, content, rest, rfl, h⟩)
    · rfl
    · exact ofTree_group_eq_ok_iff.mpr h

end Plan

/-! ## Settings -/

/-- A setting is read from its tree; without one it keeps its default. -/
def Stated {α : Type} (read : SettingTree → Reading α) (default : α) :
    Option SettingTree → α → Prop
  | none, a => a = default
  | some t, a => read t = .ok a

section Stated

variable {α : Type} {read : SettingTree → Reading α} {default a : α}

@[simp] theorem stated_none : Stated read default none a ↔ a = default := Iff.rfl

@[simp] theorem stated_some {t : SettingTree} : Stated read default (some t) a ↔ read t = .ok a :=
  Iff.rfl

end Stated

namespace OutputSettings

theorem change_eq_ok_iff {o o' : OutputSettings} {entries : List (String × SettingTree)}
    (h : InOrder entries) : change o entries = .ok o' ↔
      Stated formatOfTree o.format (entries.lookup "format") o'.format ∧
      Stated SettingTree.readBool o.pretty (entries.lookup "pretty") o'.pretty := by
  induction entries generalizing o with
  | nil =>
    obtain ⟨format, pretty⟩ := o
    obtain ⟨format', pretty'⟩ := o'
    simp [change, eq_comm]
  | cons e entries ih =>
    obtain ⟨key, t⟩ := e
    rw [change, bind_eq_ok_iff]
    simp only [Reading.below_eq_ok_iff, ih h.tail, lookup_cons_eq_ite]
    by_cases hformat : key = "format"
    · subst hformat
      simp [map_eq_ok_iff, h.lookup_tail]
    · by_cases hpretty : key = "pretty"
      · subst hpretty
        simp [map_eq_ok_iff, h.lookup_tail, and_comm, -Bool.exists_bool]
      · simp [hformat, hpretty, Ne.symm hformat, Ne.symm hpretty]

/-- Output settings in a group, with the defaults of those that are left out. -/
theorem ofTree_group_eq_ok_iff {origin : Origin} {entries : List (String × SettingTree)}
    {o : OutputSettings} (h : InOrder entries) : ofTree (.group origin entries) = .ok o ↔
      Stated formatOfTree .json (entries.lookup "format") o.format ∧
      Stated SettingTree.readBool true (entries.lookup "pretty") o.pretty := by
  rw [ofTree, Reading.made_eq_ok_iff, change_eq_ok_iff h]

end OutputSettings

namespace Settings

theorem change_eq_ok_iff {s s' : Settings} {entries : List (String × SettingTree)}
    (h : InOrder entries) : change s entries = .ok s' ↔
      Stated Plan.ofTree s.plan (entries.lookup "transformer") s'.plan ∧
      Stated OutputSettings.ofTree s.output (entries.lookup "output") s'.output := by
  induction entries generalizing s with
  | nil =>
    obtain ⟨plan, output⟩ := s
    obtain ⟨plan', output'⟩ := s'
    simp [change, eq_comm]
  | cons e entries ih =>
    obtain ⟨key, t⟩ := e
    rw [change, bind_eq_ok_iff]
    simp only [Reading.below_eq_ok_iff, ih h.tail, lookup_cons_eq_ite]
    by_cases hplan : key = "transformer"
    · subst hplan
      simp [map_eq_ok_iff, h.lookup_tail]
    · by_cases houtput : key = "output"
      · subst houtput
        simp [map_eq_ok_iff, h.lookup_tail, and_comm]
      · simp [hplan, houtput, Ne.symm hplan, Ne.symm houtput]

/-- Settings are read from the trees of their keys; the other keys are passed over. -/
theorem ofEntries_eq_ok_iff {entries : List (String × SettingTree)} {s : Settings}
    (h : InOrder entries) : ofEntries entries = .ok s ↔
      Stated Plan.ofTree .noop (entries.lookup "transformer") s.plan ∧
      Stated OutputSettings.ofTree {} (entries.lookup "output") s.output :=
  change_eq_ok_iff h

end Settings

end Redeclare
