import Redeclare.Proofs.Plan.Keys
import Redeclare.Proofs.Reading.Form

/-!
# The forms of plans

A plan can be written as JSON, as YAML with its variants as keys (`Keyed`) or as
tags (`Tagged`), and in the settings of a file.  Every reader finds the plan in
its form, as long as this nests no deeper than the reader goes; `height` counts
how deep a plan nests.

* `read_render` is about JSON, `run_readKeyedPlace` and `run_readTaggedPlace`
  about YAML.
* `ofTree_of_keyed` and `exists_run_settingOfNode` are about the settings of a
  file.
* `read_forms` puts them together.
-/

namespace Redeclare

open Yaml

/-- An untagged scalar with this text, in whatever style it is written. -/
def Yaml.Node.Spells (node : Node Nat) (text : String) : Prop :=
  ∃ anchor style, node = .scalar anchor none text style

theorem Json.nestingItems_le {items : List Json} {depth : Nat} (h : ∀ item ∈ items, item.nesting ≤ depth) :
    nestingItems items ≤ depth := by
  induction items with
  | nil => exact Nat.zero_le _
  | cons item items ih =>
    rw [List.forall_mem_cons] at h
    exact Nat.max_le.mpr ⟨h.1, ih h.2⟩

namespace Plan

/-! ## Forms -/

/-- A node is the plan with its variants as keys. -/
inductive Keyed : Plan → Node Nat → Prop where
  | noop {node : Node Nat} (h : node.Spells "noop") : Keyed .noop node
  | override {names : List ModifierName} {anchor anchor' : Option Nat} {key : Node Nat}
      {items : List (Node Nat)} (hkey : key.Spells "override")
      (hitems : List.Forall₂ (fun (n : ModifierName) item => item.Spells n.text) names items) :
      Keyed (.override names) (.mapping anchor none [(key, .sequence anchor' none items)])
  | chain {plans : List Plan} {anchor anchor' : Option Nat} {key : Node Nat}
      {items : List (Node Nat)} (hkey : key.Spells "chain")
      (hitems : List.Forall₂ Keyed plans items) :
      Keyed (.chain plans) (.mapping anchor none [(key, .sequence anchor' none items)])

/-- A node is the plan with its variants as tags. -/
inductive Tagged : Plan → Node Nat → Prop where
  | noop {node : Node Nat} (h : node.Spells "noop") : Tagged .noop node
  | override {names : List ModifierName} {anchor : Option Nat} {items : List (Node Nat)}
      (hitems : List.Forall₂ (fun (n : ModifierName) item => item.Spells n.text) names items) :
      Tagged (.override names) (.sequence anchor (some "!override") items)
  | chain {plans : List Plan} {anchor : Option Nat} {items : List (Node Nat)}
      (hitems : List.Forall₂ Tagged plans items) :
      Tagged (.chain plans) (.sequence anchor (some "!chain") items)

mutual

/-- How many lists a plan nests. -/
def height : Plan → Nat
  | noop => 0
  | override _ => 1
  | chain plans => 1 + heights plans

/-- How many lists the deepest of several plans nests. -/
def heights : List Plan → Nat
  | [] => 0
  | p :: plans => max p.height (heights plans)

end

theorem height_le_heights {p : Plan} {plans : List Plan} (h : p ∈ plans) :
    p.height ≤ heights plans := by
  induction plans with
  | nil => exact nomatch h
  | cons q plans ih =>
    rw [heights]
    rcases List.mem_cons.mp h with rfl | h
    · exact Nat.le_max_left _ _
    · exact Nat.le_trans (ih h) (Nat.le_max_right _ _)

/-- Induction on a plan: a chain after all of its plans. -/
theorem induct {motive : Plan → Prop} (noop : motive .noop)
    (override : ∀ names, motive (.override names))
    (chain : ∀ plans, (∀ p ∈ plans, motive p) → motive (.chain plans)) (p : Plan) : motive p := by
  cases p with
  | noop => exact noop
  | override names => exact override names
  | chain plans => exact chain plans fun p _ => induct noop override chain p

/-! ## JSON -/

theorem toJson_form_override (names : List ModifierName) : (form (.override names)).toJson =
    .obj [("override", .arr (names.map fun n => .str n.text))] := by
  rw [form, Form.toJson, Form.toJson, Form.toJsons_eq_map, List.map_map]
  rfl

theorem forms_eq_map (plans : List Plan) : forms plans = plans.map form := by
  induction plans with
  | nil => rfl
  | cons p plans ih => rw [forms, ih, List.map_cons]

theorem toJson_form_chain (plans : List Plan) : (form (.chain plans)).toJson =
    .obj [("chain", .arr (plans.map fun p => p.form.toJson))] := by
  rw [form, Form.toJson, Form.toJson, Form.toJsons_eq_map, forms_eq_map, List.map_map]
  rfl

theorem ofJson_text (n : ModifierName) : ModifierName.ofJson (.str n.text) = .ok n := by
  cases n <;> rfl

theorem readItems_texts (names : List ModifierName) :
    Json.readItems ModifierName.ofJson (names.map fun n => .str n.text) = .ok names := by
  induction names with
  | nil => rfl
  | cons n names ih => rw [List.map_cons, Json.readItems, ofJson_text, ih]; rfl

theorem ofJson_form (p : Plan) : ofJson p.form.toJson = .ok p := by
  induction p using induct with
  | noop => rfl
  | override names =>
    rw [toJson_form_override]
    exact map_eq_ok_iff.mpr ⟨names, readItems_texts names, rfl⟩
  | chain plans ih =>
    have hplans : List.Forall₂ (fun v p => ofJson v = .ok p) (plans.map fun p => p.form.toJson) plans :=
      List.forall₂_map_left_iff.mpr (List.forall₂_same.mpr ih)
    rw [toJson_form_chain]
    exact map_eq_ok_iff.mpr ⟨plans, ofJsons_eq_ok_iff.mpr hplans, rfl⟩

theorem exact_form (p : Plan) : p.form.toJson.Exact := by
  induction p using induct with
  | noop => trivial
  | override names =>
    rw [toJson_form_override]
    refine ⟨Json.exactItems_of_forall fun item hitem => ?_, trivial⟩
    obtain ⟨n, -, rfl⟩ := List.mem_map.mp hitem
    trivial
  | chain plans ih =>
    rw [toJson_form_chain]
    refine ⟨Json.exactItems_of_forall fun item hitem => ?_, trivial⟩
    obtain ⟨p, hp, rfl⟩ := List.mem_map.mp hitem
    exact ih p hp

theorem nesting_form_le (p : Plan) : p.form.toJson.nesting ≤ 2 * p.height := by
  induction p using induct with
  | noop => exact Nat.zero_le _
  | override names =>
    have hitems : Json.nestingItems (names.map fun n => .str n.text) ≤ 0 := by
      refine Json.nestingItems_le fun item hitem => ?_
      obtain ⟨n, -, rfl⟩ := List.mem_map.mp hitem
      exact Nat.le_refl 0
    rw [toJson_form_override, height]
    simp only [Json.nesting, Json.nestingMembers]
    omega
  | chain plans ih =>
    have hitems : Json.nestingItems (plans.map fun p => p.form.toJson) ≤ 2 * heights plans := by
      refine Json.nestingItems_le fun item hitem => ?_
      obtain ⟨p, hp, rfl⟩ := List.mem_map.mp hitem
      have hheight : p.height ≤ heights plans := height_le_heights hp
      have hnesting : p.form.toJson.nesting ≤ 2 * p.height := ih p hp
      omega
    rw [toJson_form_chain, height]
    simp only [Json.nesting, Json.nestingMembers]
    omega

/-- A plan that is written in JSON is read back, in either layout. -/
theorem read_render (p : Plan) (pretty : Bool) (h : 2 * p.height ≤ Json.maxDepth) :
    ∃ v, Json.read (OutputFormat.json.render pretty p.form) = some v ∧ ofJson v = .ok p :=
  ⟨p.form.toJson, Json.read_write _ p.exact_form (Nat.le_trans p.nesting_form_le h), p.ofJson_form⟩

/-! ## YAML -/

/-- A text that is a text on its own, not a number or the like. -/
theorem plainValue_text (n : ModifierName) : plainValue n.text = .str n.text := by
  cases n <;> rfl

theorem ofText?_text (n : ModifierName) : ModifierName.ofText? n.text = some n := by
  cases n <;> rfl

theorem scalarValue_of_plainValue {text : String} (h : plainValue text = .str text) (style : Style) :
    scalarValue none text style = .ok (.str text) := by
  rw [scalarValue, h, ite_self]

section Keyed

variable {d : Document} {path : Path} {depth fuel jumps : Nat} {node : Node Nat} {text : String}

theorem run_readText_of_spells {expected : Expected} (h : node.Spells text) :
    (Place.readText expected anyText ⟨d, path, depth, node⟩).run jumps = .ok (text, jumps) := by
  obtain ⟨anchor, style, rfl⟩ := h
  rw [Place.readText, run_locate_eq_ok_iff, run_bind_eq_ok_iff]
  exact ⟨_, jumps, Place.run_follow_eq_ok_iff.mpr ⟨_, rfl, rfl⟩, rfl⟩

theorem isAbsent_eq_false (hroot : d.root.isSome = true) (path : Path) (depth : Nat)
    (node : Node Nat) : Place.isAbsent ⟨d, path, depth, node⟩ = false := by
  rw [Place.isAbsent, Option.isNone_eq_false_iff]
  exact hroot

/-- A scalar is the name of a variant without content. -/
theorem run_keyedVariant_of_spells {kind : VariantKind} (hroot : d.root.isSome = true)
    (h : node.Spells text) (htext : plainValue text = .str text) :
    (Place.keyedVariant kind ⟨d, path, depth, node⟩).run jumps = .ok (((text, none), []), jumps) := by
  obtain ⟨anchor, style, rfl⟩ := h
  unfold Place.keyedVariant
  rw [isAbsent_eq_false hroot]
  dsimp only
  rw [scalarValue_of_plainValue htext]
  rfl

/-- A mapping with one pair is a variant with content. -/
theorem run_keyedVariant_of_pair {kind : VariantKind} (hroot : d.root.isSome = true) (path : Path)
    {anchor : Option Nat} {key content : Node Nat} (hkey : key.Spells text) :
    ∃ path', (Place.keyedVariant kind
      ⟨d, path, depth + 1, .mapping anchor none [(key, content)]⟩).run jumps =
        .ok (((text, some ⟨d, path', depth, content⟩), []), jumps) := by
  unfold Place.keyedVariant
  rw [isAbsent_eq_false hroot]
  let place : Place := ⟨d, path, depth + 1, .mapping anchor none [(key, content)]⟩
  have hpairs : (place.pairs (.variant kind)).run jumps =
      .ok (place.pairPlaces depth [(key, content)], jumps) :=
    Place.run_pairs_eq_ok_iff.mpr ⟨rfl, .inl ⟨depth, _, _, _, rfl, rfl, rfl⟩⟩
  refine ⟨place.valuePath key, run_bind_eq_ok_iff.mpr ⟨_, jumps, hpairs, ?_⟩⟩
  exact run_bind_eq_ok_iff.mpr ⟨text, jumps, run_readText_of_spells hkey, rfl⟩

theorem run_follow_of_spells (h : node.Spells text) :
    (d.follow node).run jumps = .ok (node, jumps) := by
  obtain ⟨anchor, style, rfl⟩ := h
  rfl

/-- What is read in the place of a variant with keys is what its name and content give. -/
theorem run_of_keyedVariant {α : Type} {kind : VariantKind}
    {variant : Place.Variant × List (Place × Place)}
    {next : Place.Variant × List (Place × Place) → ReadM α} {r : α × Nat}
    (hfollow : (d.follow node).run jumps = .ok (node, jumps))
    (hvariant : (Place.keyedVariant kind ⟨d, path, depth, node⟩).run jumps = .ok (variant, jumps))
    (hnext : (next variant).run jumps = .ok r) :
    (locate path do
      let p ← Place.follow ⟨d, path, depth, node⟩
      let v ← p.keyedVariant kind
      next v).run jumps = .ok r := by
  rw [run_locate_eq_ok_iff, run_bind_eq_ok_iff]
  exact ⟨_, jumps, Place.run_follow_eq_ok_iff.mpr ⟨node, hfollow, rfl⟩,
    run_bind_eq_ok_iff.mpr ⟨variant, jumps, hvariant, hnext⟩⟩

/-- A named choice is read from its name. -/
theorem run_readKeyed_of_spells {n : ModifierName} (hroot : d.root.isSome = true)
    (h : node.Spells n.text) :
    (ModifierName.readKeyed ⟨d, path, depth, node⟩).run jumps = .ok (n, jumps) := by
  have hvariant : (Place.keyedVariant .modifierName ⟨d, path, depth, node⟩).run jumps =
      .ok (((n.text, none), []), jumps) := run_keyedVariant_of_spells hroot h (plainValue_text n)
  refine run_of_keyedVariant (run_follow_of_spells h) hvariant ?_
  dsimp only
  rw [ofText?_text]
  rfl

/-- A plan is read from its form with keys. -/
theorem run_readKeyedPlace (hroot : d.root.isSome = true) (p : Plan) : ∀ {path depth fuel node},
    p.Keyed node → 2 * p.height ≤ depth → p.height < fuel →
      (readKeyedPlace fuel ⟨d, path, depth, node⟩).run jumps = .ok (p, jumps) := by
  induction p using induct with
  | noop =>
    intro path depth fuel node h hdepth hfuel
    obtain ⟨fuel, rfl⟩ : ∃ n, fuel = n + 1 := Nat.exists_eq_succ_of_ne_zero (by omega)
    cases h with
    | noop h =>
      exact run_of_keyedVariant (run_follow_of_spells h) (run_keyedVariant_of_spells hroot h rfl) rfl
  | override names =>
    intro path depth fuel node h hdepth hfuel
    cases h with
    | @override _ anchor anchor' key items hkey hitems =>
      obtain ⟨fuel, rfl⟩ : ∃ n, fuel = n + 1 := Nat.exists_eq_succ_of_ne_zero (by omega)
      -- The reader spends two levels on a variant: its mapping and its list.
      obtain ⟨depth, rfl⟩ : ∃ n, depth = n + 2 := Nat.exists_eq_add_of_le' hdepth
      have hnames : List.Forall₂ (fun item n => ∀ path,
          (ModifierName.readKeyed ⟨d, path, depth, item⟩).run jumps = .ok (n, jumps)) items names :=
        hitems.flip.imp fun item n h path => run_readKeyed_of_spells hroot h
      obtain ⟨path', hvariant⟩ := run_keyedVariant_of_pair hroot path hkey
      refine run_of_keyedVariant rfl hvariant (run_map_eq_ok_iff.mpr ⟨names, ?_, rfl⟩)
      exact run_readOnly_eq_ok_iff.mpr ⟨Place.run_readList_of_forall₂ hnames, rfl⟩
  | chain plans ih =>
    intro path depth fuel node h hdepth hfuel
    cases h with
    | @chain _ anchor anchor' key items hkey hitems =>
      rw [height] at hdepth hfuel
      obtain ⟨fuel, rfl⟩ : ∃ n, fuel = n + 1 := Nat.exists_eq_succ_of_ne_zero (by omega)
      obtain ⟨depth, rfl⟩ : ∃ n, depth = n + 2 := Nat.exists_eq_add_of_le' (by omega)
      have hplans : List.Forall₂ (fun item p => ∀ path,
          (readKeyedPlace fuel ⟨d, path, depth, item⟩).run jumps = .ok (p, jumps)) items plans := by
        refine (forall₂_of_mem hitems fun p hp item h => ?_).flip
        have hheight : p.height ≤ heights plans := height_le_heights hp
        exact fun path => ih p hp h (by omega) (by omega)
      obtain ⟨path', hvariant⟩ := run_keyedVariant_of_pair hroot path hkey
      refine run_of_keyedVariant rfl hvariant (run_map_eq_ok_iff.mpr ⟨plans, ?_, rfl⟩)
      exact run_readOnly_eq_ok_iff.mpr ⟨Place.run_readList_of_forall₂ hplans, rfl⟩

end Keyed

section Tagged

variable {d : Document} {path : Path} {depth fuel jumps : Nat} {node : Node Nat}

/-- A named choice is read from its name. -/
theorem run_readTagged_of_spells {n : ModifierName} (h : node.Spells n.text) :
    (ModifierName.readTagged ⟨d, path, depth, node⟩).run jumps = .ok (n, jumps) := by
  obtain ⟨anchor, style, rfl⟩ := h
  have hvariant : (Place.taggedVariant ⟨d, path, depth, .scalar anchor none n.text style⟩).run jumps =
      .ok ((n.text, none), jumps) := rfl
  refine run_bind_eq_ok_iff.mpr ⟨_, jumps, hvariant, ?_⟩
  dsimp only
  rw [ofText?_text]
  rfl

/-- A plan is read from its form with tags. -/
theorem run_readTaggedPlace (hroot : d.root.isSome = true) (p : Plan) : ∀ {path depth fuel node},
    p.Tagged node → p.height ≤ depth → p.height < fuel →
      (readTaggedPlace fuel ⟨d, path, depth, node⟩).run jumps = .ok (p, jumps) := by
  induction p using induct with
  | noop =>
    intro path depth fuel node h hdepth hfuel
    cases h with
    | noop h =>
      obtain ⟨fuel, rfl⟩ : ∃ n, fuel = n + 1 := Nat.exists_eq_succ_of_ne_zero (by omega)
      obtain ⟨anchor, style, rfl⟩ := h
      rw [readTaggedPlace, Place.throughAlias]
      dsimp only
      rw [isAbsent_eq_false hroot]
      rfl
  | override names =>
    intro path depth fuel node h hdepth hfuel
    cases h with
    | @override _ anchor items hitems =>
      obtain ⟨fuel, rfl⟩ : ∃ n, fuel = n + 1 := Nat.exists_eq_succ_of_ne_zero (by omega)
      obtain ⟨depth, rfl⟩ : ∃ n, depth = n + 1 := Nat.exists_eq_add_of_le' hdepth
      have hnames : List.Forall₂ (fun item n => ∀ path,
          (ModifierName.readTagged ⟨d, path, depth, item⟩).run jumps = .ok (n, jumps)) items names :=
        hitems.flip.imp fun item n h path => run_readTagged_of_spells h
      rw [readTaggedPlace, Place.throughAlias]
      dsimp only
      rw [isAbsent_eq_false hroot]
      exact run_map_eq_ok_iff.mpr ⟨names, Place.run_readList_of_forall₂ hnames, rfl⟩
  | chain plans ih =>
    intro path depth fuel node h hdepth hfuel
    cases h with
    | @chain _ anchor items hitems =>
      rw [height] at hdepth hfuel
      obtain ⟨fuel, rfl⟩ : ∃ n, fuel = n + 1 := Nat.exists_eq_succ_of_ne_zero (by omega)
      obtain ⟨depth, rfl⟩ : ∃ n, depth = n + 1 := Nat.exists_eq_add_of_le' (by omega)
      have hplans : List.Forall₂ (fun item p => ∀ path,
          (readTaggedPlace fuel ⟨d, path, depth, item⟩).run jumps = .ok (p, jumps)) items plans := by
        refine (forall₂_of_mem hitems fun p hp item h => ?_).flip
        have hheight : p.height ≤ heights plans := height_le_heights hp
        exact fun path => ih p hp h (by omega) (by omega)
      rw [readTaggedPlace, Place.throughAlias]
      dsimp only
      rw [isAbsent_eq_false hroot]
      exact run_map_eq_ok_iff.mpr ⟨plans, Place.run_readList_of_forall₂ hplans, rfl⟩

end Tagged

/-! ## Settings -/

section Settings

variable {d : Document} {node : Node Nat} {text : String}

theorem scalarLeaf_of_plainValue (h : plainValue text = .str text) (style : Style) :
    scalarLeaf none text style = .ok (.text text) := by
  rw [scalarLeaf, scalarValue_of_plainValue h]

/-- An untagged scalar stands for its text. -/
theorem yields_of_spells {tree : SettingTree} (h : node.Spells text)
    (htext : plainValue text = .str text) (hyields : d.Yields node tree) :
    tree = .leaf .file (.text text) := by
  obtain ⟨anchor, style, rfl⟩ := h
  cases hyields with
  | scalar h hleaf =>
    obtain ⟨-, rfl, rfl, rfl⟩ := Node.scalar.inj h
    rw [scalarLeaf_of_plainValue htext] at hleaf
    rw [Except.ok.inj hleaf]
  | sequence h _ => exact nomatch h
  | mapping h _ _ => exact nomatch h

/-- A mapping with one pair stands for a group with one entry. -/
theorem exists_entry_of_pair {tree : SettingTree} {anchor : Option Nat} {key content : Node Nat}
    (hkey : key.Spells text) (hyields : d.Yields (.mapping anchor none [(key, content)]) tree) :
    ∃ t, tree = .group .file [(text, t)] ∧ d.Yields content t := by
  obtain ⟨entries, hpairs, rfl⟩ := hyields.exists_entries rfl
  obtain ⟨e, rest, ⟨hkey', hcontent⟩, hrest, rfl⟩ := List.forall₂_cons_left_iff.mp hpairs
  obtain rfl := List.forall₂_nil_left_iff.mp hrest
  obtain ⟨anchor', style, rfl⟩ := hkey
  obtain rfl : e.1 = text := hkey'.unique ⟨_, _, _, rfl⟩
  exact ⟨e.2, rfl, hcontent⟩

/-- The settings of a plan's form with keys are the plan. -/
theorem ofTree_of_keyed (p : Plan) : ∀ {node tree}, p.Keyed node → d.Yields node tree →
    ofTree tree = .ok p := by
  induction p using induct with
  | noop =>
    intro node tree h hyields
    cases h with
    | noop h =>
      rw [yields_of_spells h rfl hyields]
      rfl
  | override names =>
    intro node tree h hyields
    cases h with
    | override hkey hitems =>
      obtain ⟨t, rfl, hcontent⟩ := exists_entry_of_pair hkey hyields
      obtain ⟨trees, htrees, rfl⟩ := hcontent.exists_items rfl
      refine ofTree_group_eq_ok_iff.mpr (.override ?_)
      refine (forall₂_comp htrees.flip hitems.flip).imp ?_
      rintro tree n ⟨item, hyields, hspells⟩
      rw [yields_of_spells hspells (plainValue_text n) hyields]
      exact SettingTree.readChoice_eq_ok_iff.mpr ⟨n.text, ofText?_text n, .inl ⟨.file, rfl⟩⟩
  | chain plans ih =>
    intro node tree h hyields
    cases h with
    | @chain _ anchor anchor' key items hkey hitems =>
      obtain ⟨t, rfl, hcontent⟩ := exists_entry_of_pair hkey hyields
      obtain ⟨trees, htrees, rfl⟩ := hcontent.exists_items rfl
      refine ofTree_group_eq_ok_iff.mpr (.chain ?_)
      have hplans : List.Forall₂ (fun p item => ∀ tree, d.Yields item tree → ofTree tree = .ok p)
          plans items := forall₂_of_mem hitems fun p hp item h tree => ih p hp h
      refine (forall₂_comp htrees.flip hplans.flip).imp ?_
      rintro tree p ⟨item, hyields, h⟩
      exact h tree hyields

variable {depth jumps : Nat}

theorem run_settingOfNode_of_spells (h : node.Spells text) (htext : plainValue text = .str text)
    (path : Path) :
    (settingOfNode d depth path node).run jumps = .ok (.leaf .file (.text text), jumps) := by
  obtain ⟨anchor, style, rfl⟩ := h
  unfold settingOfNode
  rw [run_locate_eq_ok_iff, run_bind_eq_ok_iff]
  refine ⟨_, jumps, rfl, ?_⟩
  exact run_map_eq_ok_iff.mpr
    ⟨_, run_ofExcept_eq_ok_iff.mpr ⟨scalarLeaf_of_plainValue htext style, rfl⟩, rfl⟩

theorem run_settingOfNode_of_items {anchor : Option Nat} {items : List (Node Nat)}
    {trees : List SettingTree} (h : List.Forall₂ (fun item tree => ∀ path,
      (settingOfNode d depth path item).run jumps = .ok (tree, jumps)) items trees) (path : Path) :
    (settingOfNode d (depth + 1) path (.sequence anchor none items)).run jumps =
      .ok (.list .file trees, jumps) := by
  unfold settingOfNode
  rw [run_locate_eq_ok_iff, run_bind_eq_ok_iff]
  refine ⟨_, jumps, rfl, ?_⟩
  exact run_map_eq_ok_iff.mpr ⟨trees, Place.run_mapM_itemPlaces_of_forall₂ h, rfl⟩

theorem run_settingOfNode_of_pair {anchor : Option Nat} {key content : Node Nat} {tree : SettingTree}
    (hkey : key.Spells text) (h : ∀ path,
      (settingOfNode d depth path content).run jumps = .ok (tree, jumps)) (path : Path) :
    (settingOfNode d (depth + 1) path (.mapping anchor none [(key, content)])).run jumps =
      .ok (.group .file [(text, tree)], jumps) := by
  unfold settingOfNode
  rw [run_locate_eq_ok_iff, run_bind_eq_ok_iff]
  refine ⟨_, jumps, rfl, run_bind_eq_ok_iff.mpr ⟨[(text, tree)], jumps, ?_, rfl⟩⟩
  refine run_mapM_of_forall₂ (.cons ?_ .nil)
  exact run_bind_eq_ok_iff.mpr ⟨text, jumps, run_readText_of_spells hkey,
    run_bind_eq_ok_iff.mpr ⟨tree, jumps, h _, rfl⟩⟩

/-- A plan's form with keys is read as settings. -/
theorem exists_run_settingOfNode (p : Plan) : ∀ {depth node}, p.Keyed node → 2 * p.height ≤ depth →
    ∃ tree, ∀ path, (settingOfNode d depth path node).run jumps = .ok (tree, jumps) := by
  induction p using induct with
  | noop =>
    intro depth node h hdepth
    cases h with
    | noop h => exact ⟨_, run_settingOfNode_of_spells h rfl⟩
  | override names =>
    intro depth node h hdepth
    cases h with
    | @override _ anchor anchor' key items hkey hitems =>
      obtain ⟨depth, rfl⟩ : ∃ n, depth = n + 2 := Nat.exists_eq_add_of_le' hdepth
      obtain ⟨trees, htrees⟩ : ∃ trees, List.Forall₂ (fun item tree => ∀ path,
          (settingOfNode d depth path item).run jumps = .ok (tree, jumps)) items trees := by
        refine exists_forall₂_of_forall_exists fun item hitem => ?_
        obtain ⟨n, -, hspells⟩ := exists_mem_of_forall₂_right hitems hitem
        exact ⟨_, run_settingOfNode_of_spells hspells (plainValue_text n)⟩
      exact ⟨_, run_settingOfNode_of_pair hkey (run_settingOfNode_of_items htrees)⟩
  | chain plans ih =>
    intro depth node h hdepth
    cases h with
    | @chain _ anchor anchor' key items hkey hitems =>
      rw [height] at hdepth
      obtain ⟨depth, rfl⟩ : ∃ n, depth = n + 2 := Nat.exists_eq_add_of_le' (by omega)
      obtain ⟨trees, htrees⟩ : ∃ trees, List.Forall₂ (fun item tree => ∀ path,
          (settingOfNode d depth path item).run jumps = .ok (tree, jumps)) items trees := by
        refine exists_forall₂_of_forall_exists fun item hitem => ?_
        obtain ⟨p, hp, h⟩ := exists_mem_of_forall₂_right hitems hitem
        have hheight : p.height ≤ heights plans := height_le_heights hp
        exact ih p hp h (by omega)
      exact ⟨_, run_settingOfNode_of_pair hkey (run_settingOfNode_of_items htrees)⟩

end Settings

/-! ## Texts -/

section Texts

variable {p : Plan} {text : String} {d : Document} {node : Node Nat}

theorem readKeyed_of_keyed (hd : Document.read text = .ok d) (hroot : d.root = some node)
    (h : p.Keyed node) (hdepth : 2 * p.height ≤ maxDepth) : readKeyed text = .ok p := by
  have hsome : d.root.isSome = true := hroot ▸ rfl
  refine readDocument_eq_ok_iff.mpr ⟨d, 0, hd, ?_⟩
  rw [Document.rootPlace, hroot]
  exact run_readKeyedPlace hsome p h hdepth (by omega)

theorem readTagged_of_tagged (hd : Document.read text = .ok d) (hroot : d.root = some node)
    (h : p.Tagged node) (hdepth : p.height ≤ maxDepth) : readTagged text = .ok p := by
  have hsome : d.root.isSome = true := hroot ▸ rfl
  refine readDocument_eq_ok_iff.mpr ⟨d, 0, hd, ?_⟩
  rw [Document.rootPlace, hroot]
  exact run_readTaggedPlace hsome p h hdepth (Nat.lt_succ_of_le hdepth)

/-- A file whose only setting is a plan is loaded. -/
theorem load_of_keyed {anchor : Option Nat} {tag : Option String} {key : Node Nat}
    (hd : Document.read text = .ok d) (hroot : d.root = some (.mapping anchor tag [(key, node)]))
    (hkey : key.Spells "transformer") (h : p.Keyed node) (hdepth : 2 * p.height + 1 ≤ maxDepth) :
    Settings.load (.text text) [] = .ok { plan := p } := by
  obtain ⟨tree, htree⟩ : ∃ tree, ∀ path,
      (settingOfNode d (maxDepth - 1) path node).run 0 = .ok (tree, 0) :=
    exists_run_settingOfNode p h (Nat.le_sub_of_add_le hdepth)
  have hplan : ofTree tree = .ok p :=
    ofTree_of_keyed p h (Document.yields_of_run_settingOfNode (htree .root))
  have hentries : readSettings text = .ok [("transformer", tree)] := by
    refine readDocument_eq_ok_iff.mpr ⟨d, 0, hd, ?_⟩
    rw [Document.rootPlace, hroot]
    refine run_bind_eq_ok_iff.mpr ⟨[("transformer", tree)], 0, ?_, rfl⟩
    rw [Place.readEntries, run_locate_eq_ok_iff, run_bind_eq_ok_iff]
    refine ⟨_, 0, Place.run_follow_eq_ok_iff.mpr ⟨_, rfl, rfl⟩, run_bind_eq_ok_iff.mpr ?_⟩
    refine ⟨_, 0, Place.run_pairs_eq_ok_iff.mpr
      ⟨rfl, .inl ⟨maxDepth - 1, _, _, _, rfl, rfl, rfl⟩⟩, run_mapM_of_forall₂ (.cons ?_ .nil)⟩
    exact run_bind_eq_ok_iff.mpr ⟨_, 0, run_readText_of_spells hkey,
      run_bind_eq_ok_iff.mpr ⟨tree, 0, htree _, rfl⟩⟩
  refine Settings.load_eq_ok_iff.mpr ⟨_, mapError_eq_ok_iff.mpr hentries, ?_⟩
  rw [Environment.settings, List.foldl_nil, SettingTree.layerEntries,
    Settings.ofEntries_eq_ok_iff (List.pairwise_singleton _ _)]
  exact ⟨hplan, rfl⟩

/-- The plan of a file that is accepted is the one in its form with keys there. -/
theorem plan_of_load_of_keyed {s : Settings} {pairs : List (Node Nat × Node Nat)}
    (hload : Settings.load (.text text) [] = .ok s) (hd : Document.read text = .ok d)
    (hroot : d.RootPairs pairs) (hnode : d.LastValue pairs "transformer" node) (h : p.Keyed node) :
    s.plan = p := by
  obtain ⟨d', pairs', hd', hroot', hlast, -⟩ := plan_of_load hload
  obtain rfl := Except.ok.inj (hd.symm.trans hd')
  obtain rfl := hroot.unique hroot'
  obtain ⟨tree, hyields, hplan⟩ := hlast node hnode
  exact Except.ok.inj (hplan.symm.trans (ofTree_of_keyed p h hyields))

end Texts

/-- Every reader finds a plan in its form: in JSON, in YAML with keys and with tags, and under its
key in a file, alone or among other settings that are accepted.  The bounds are those of the readers
on how deep collections nest. -/
theorem read_forms (p : Plan) :
    (2 * p.height ≤ Json.maxDepth → ∀ pretty, ∃ v,
      Json.read (OutputFormat.json.render pretty p.form) = some v ∧ ofJson v = .ok p) ∧
    (∀ text d node, Document.read text = .ok d → d.root = some node → p.Keyed node →
      2 * p.height ≤ maxDepth → readKeyed text = .ok p) ∧
    (∀ text d node, Document.read text = .ok d → d.root = some node → p.Tagged node →
      p.height ≤ maxDepth → readTagged text = .ok p) ∧
    (∀ text d anchor tag key node, Document.read text = .ok d →
      d.root = some (.mapping anchor tag [(key, node)]) → key.Spells "transformer" → p.Keyed node →
        2 * p.height + 1 ≤ maxDepth → Settings.load (.text text) [] = .ok { plan := p }) ∧
    ∀ text d pairs node s, Document.read text = .ok d → d.RootPairs pairs →
      d.LastValue pairs "transformer" node → p.Keyed node →
        Settings.load (.text text) [] = .ok s → s.plan = p :=
  ⟨fun h pretty => p.read_render pretty h,
    fun _ _ _ hd hroot h hdepth => readKeyed_of_keyed hd hroot h hdepth,
    fun _ _ _ hd hroot h hdepth => readTagged_of_tagged hd hroot h hdepth,
    fun _ _ _ _ _ _ hd hroot hkey h hdepth => load_of_keyed hd hroot hkey h hdepth,
    fun _ _ _ _ _ hd hroot hnode h hload => plan_of_load_of_keyed hload hd hroot hnode h⟩

/-- An override in a chain, with keys. -/
def nestedKeys : Node Nat :=
  .mapping none none [(.scalar none none "chain" .plain, .sequence none none
    [.mapping none none [(.scalar none none "override" .plain, .sequence none none
      [.scalar none none "final" .plain])]])]

/-- An override in a chain, with tags. -/
def nestedTags : Node Nat :=
  .sequence none (some "!chain") [.sequence none (some "!override") [.scalar none none "final" .plain]]

theorem keyed_nestedKeys : Keyed (.chain [.override [.final]]) nestedKeys :=
  .chain ⟨_, _, rfl⟩ (.cons (.override ⟨_, _, rfl⟩ (.cons ⟨_, _, rfl⟩ .nil)) .nil)

theorem tagged_nestedTags : Tagged (.chain [.override [.final]]) nestedTags :=
  .chain (.cons (.override (.cons ⟨_, _, rfl⟩ .nil)) .nil)

/-- An override in a chain, in each of its forms. -/
theorem read_forms_of_nested_override :
    let p : Plan := .chain [.override [.final]]
    (∀ pretty, ∃ v, Json.read (OutputFormat.json.render pretty p.form) = some v ∧
      ofJson v = .ok p) ∧
    readKeyed "chain: [\x7boverride: [final]\x7d]" = .ok p ∧
    readTagged "!chain [!override [final]]" = .ok p ∧
    Settings.load (.text "transformer: \x7bchain: [\x7boverride: [final]\x7d]\x7d") [] =
      .ok { plan := p } ∧
    ∃ s, Settings.load (.text "output: [yaml]\ntransformer: \x7bchain: [\x7boverride: [final]\x7d]\x7d")
      [] = .ok s ∧ s.plan = p := by
  intro p
  let key : Node Nat := .scalar none none "transformer" .plain
  obtain ⟨hjson, hkeyed, htagged, hfile, hplan⟩ := read_forms p
  refine ⟨hjson (by decide), ?_, ?_, ?_, ?_⟩
  · have hread : (Document.read "chain: [\x7boverride: [final]\x7d]").toOption.map (·.root) =
        some (some nestedKeys) := by decide +kernel
    obtain ⟨d, hd, hroot⟩ := exists_eq_ok_of_toOption_map hread
    exact hkeyed _ d nestedKeys hd hroot keyed_nestedKeys (by decide)
  · have hread : (Document.read "!chain [!override [final]]").toOption.map (·.root) =
        some (some nestedTags) := by decide +kernel
    obtain ⟨d, hd, hroot⟩ := exists_eq_ok_of_toOption_map hread
    exact htagged _ d nestedTags hd hroot tagged_nestedTags (by decide)
  · have hread : (Document.read "transformer: \x7bchain: [\x7boverride: [final]\x7d]\x7d").toOption.map
        (·.root) = some (some (.mapping none none [(key, nestedKeys)])) := by decide +kernel
    obtain ⟨d, hd, hroot⟩ := exists_eq_ok_of_toOption_map hread
    exact hfile _ d none none key nestedKeys hd hroot ⟨_, _, rfl⟩ keyed_nestedKeys (by decide)
  · let output : Node Nat × Node Nat := (.scalar none none "output" .plain,
      .sequence none none [.scalar none none "yaml" .plain])
    have hload : Settings.load (.text
        "output: [yaml]\ntransformer: \x7bchain: [\x7boverride: [final]\x7d]\x7d") [] =
          .ok ⟨p, .yaml, true⟩ := eq_ok_of_toOption (by decide +kernel)
    have hread : (Document.read
        "output: [yaml]\ntransformer: \x7bchain: [\x7boverride: [final]\x7d]\x7d").toOption.map (·.root) =
          some (some (.mapping none none [output, (key, nestedKeys)])) := by decide +kernel
    obtain ⟨d, hd, hroot⟩ := exists_eq_ok_of_toOption_map hread
    have hpairs : d.RootPairs [output, (key, nestedKeys)] := by
      refine .inl ⟨none, none, ?_⟩
      rw [Document.rootPlace, hroot]
      rfl
    have hlast : d.LastValue [output, (key, nestedKeys)] "transformer" nestedKeys :=
      .there (.here ⟨_, _, _, rfl⟩ (List.forall_mem_nil _))
    exact ⟨_, hload, hplan _ d _ nestedKeys _ hd hpairs hlast keyed_nestedKeys hload⟩

end Plan

end Redeclare
