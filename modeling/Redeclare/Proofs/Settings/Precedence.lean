import Redeclare.Proofs.Settings.Environment
import Redeclare.Proofs.Settings.File
import Redeclare.Proofs.Settings.OfTree

/-!
# Which settings count

What the environment makes of the settings of a file.  Where both are accepted
alone they are accepted together, and a setting that the environment leaves out
is that of the file.  One that it makes counts instead, except where both give
the transformer as a group: these become one group, and its first key is the
variant, so the variant of the file stays if its key is the lesser one
(`Outlasts`).  Output settings in a list have no keys and are replaced as a
whole (`IsReplaced`).

* `stated_overlay` is about one setting, `exists_plan_of_overlay` and
  `exists_output_of_overlay` about the transformer and the output.
* `load_overlaid` puts them together.
-/

namespace Redeclare

open SettingTree (overlay layer layerEntries Settled)

/-! ## Layers -/

/-- The setting of a key in a group. -/
def settingIn : Option SettingTree → String → Option SettingTree
  | some (.group _ entries), key => entries.lookup key
  | _, _ => none

/-- Both settings are groups, and the first key of the lower one is the lesser. -/
def Outlasts (lower upper : Option SettingTree) : Prop :=
  ∃ origin origin' key key' content content' rest rest',
    lower = some (.group origin ((key, content) :: rest)) ∧
    upper = some (.group origin' ((key', content') :: rest')) ∧ key < key'

/-- Whether a setting is a group. -/
def SettingTree.isGroup : SettingTree → Bool
  | group .. => true
  | _ => false

/-- There is an upper setting, and one of the two is no group. -/
def IsReplaced (lower upper : Option SettingTree) : Prop :=
  upper.isSome = true ∧
    ¬(lower.all SettingTree.isGroup = true ∧ upper.all SettingTree.isGroup = true)

instance (lower upper : Option SettingTree) : Decidable (IsReplaced lower upper) :=
  inferInstanceAs (Decidable (_ ∧ _))

/-- The plan of two layers, by the plans of each. -/
structure Plan.Overlaid (lower upper : Option SettingTree) (below above merged : Plan) : Prop where
  of_unset : upper = none → merged = below
  of_outlasts : Outlasts lower upper → merged = below
  of_set : upper ≠ none → ¬Outlasts lower upper → merged = above

/-- The output settings of two layers, by those of each. -/
structure OutputSettings.Overlaid (lower upper : Option SettingTree)
    (below above merged : OutputSettings) : Prop where
  of_replaced : IsReplaced lower upper → merged = above
  format_of_set : settingIn upper "format" ≠ none → merged.format = above.format
  format_of_unset : settingIn upper "format" = none → ¬IsReplaced lower upper →
    merged.format = below.format
  pretty_of_set : settingIn upper "pretty" ≠ none → merged.pretty = above.pretty
  pretty_of_unset : settingIn upper "pretty" = none → ¬IsReplaced lower upper →
    merged.pretty = below.pretty

/-- The settings of two layers, by those of each. -/
structure Settings.Overlaid (lower upper : List (String × SettingTree))
    (below above merged : Settings) : Prop where
  plan : Plan.Overlaid (lower.lookup "transformer") (upper.lookup "transformer")
    below.plan above.plan merged.plan
  output : OutputSettings.Overlaid (lower.lookup "output") (upper.lookup "output")
    below.output above.output merged.output

/-- Without a variable for the transformer the plan of the lower layer counts. -/
theorem Settings.Overlaid.plan_eq_of_no_variable {lower : List (String × SettingTree)}
    {env : List (String × String)} {below above merged : Settings}
    (h : Settings.Overlaid lower (Environment.settings env) below above merged)
    (hnone : ∀ v ∈ env, ∀ keys, Environment.keys? v.1 ≠ some ("transformer" :: keys)) :
    merged.plan = below.plan := by
  refine h.plan.of_unset (not_not.mp fun hset => ?_)
  obtain ⟨v, hv, keys, hkeys⟩ := Environment.lookup_settings_ne_none_iff.mp hset
  exact hnone v hv keys hkeys

/-! ## One setting -/

section Stated

variable {α : Type} {read : SettingTree → Reading α} {default x y : α} {b a : Option SettingTree}

/-- An upper setting that replaces what is below counts, and otherwise the lower one. -/
theorem stated_overlay (hb : Stated read default b x) (ha : Stated read default a y)
    (h : ∀ below above, b = some below → a = some above → layer below above = above) :
    Stated read default (overlay b a) (if a = none then x else y) := by
  cases a with
  | none => simpa [overlay] using hb
  | some above =>
    rw [if_neg (Option.some_ne_none above)]
    cases b with
    | none => exact ha
    | some below =>
      rw [overlay, h below above rfl rfl]
      exact ha

end Stated

/-- Both settings are groups. -/
def AreGroups (lower upper : Option SettingTree) : Prop :=
  ∃ origin origin' below above, lower = some (.group origin below) ∧ upper = some (.group origin' above)

/-- Unless both settings are groups, the upper one replaces the lower one. -/
theorem layer_eq_of_not_areGroups {b a : Option SettingTree} (h : ¬AreGroups b a)
    {below above : SettingTree} (hb : b = some below) (ha : a = some above) :
    layer below above = above := by
  cases above with
  | leaf origin l => exact SettingTree.layer_leaf below origin l
  | list origin items => exact SettingTree.layer_list below origin items
  | group origin' upper =>
    refine SettingTree.layer_of_not_group fun origin lower heq => h ?_
    exact ⟨origin, origin', lower, upper, heq ▸ hb, ha⟩

theorem exists_eq_group_of_isGroup {t : SettingTree} (h : t.isGroup = true) :
    ∃ origin entries, t = .group origin entries := by
  cases t with
  | group origin entries => exact ⟨origin, entries, rfl⟩
  | leaf _ _ | list _ _ => exact absurd h Bool.false_ne_true

theorem isReplaced_of_not_areGroups {below above : SettingTree}
    (h : ¬AreGroups (some below) (some above)) : IsReplaced (some below) (some above) := by
  refine ⟨rfl, fun ⟨hbelow, habove⟩ => h ?_⟩
  obtain ⟨origin, lower, rfl⟩ := exists_eq_group_of_isGroup hbelow
  obtain ⟨origin', upper, rfl⟩ := exists_eq_group_of_isGroup habove
  exact ⟨origin, origin', lower, upper, rfl, rfl⟩

/-! ## The transformer -/

/-- The content of a plan's variant replaces what is below it. -/
theorem Plan.ContentOf.layer_eq {key : String} {content : SettingTree} {p : Plan}
    (h : ContentOf key content p) (below : SettingTree) : layer below content = content := by
  cases h with
  | noop origin => exact SettingTree.layer_leaf below origin .null
  | override _ => exact SettingTree.layer_list below _ _
  | chain _ => exact SettingTree.layer_list below _ _

section Groups

variable {origin origin' : Origin} {lower upper : List (String × SettingTree)} {p q : Plan}

/-- Of two groups the variant with the lesser key stays. -/
theorem exists_ofTree_layer_group (hlower : InOrder lower) (hupper : InOrder upper)
    (hp : Plan.ofTree (.group origin lower) = .ok p)
    (hq : Plan.ofTree (.group origin' upper) = .ok q) :
    ∃ r, Plan.ofTree (layer (.group origin lower) (.group origin' upper)) = .ok r ∧
      (Outlasts (some (.group origin lower)) (some (.group origin' upper)) → r = p) ∧
      (¬Outlasts (some (.group origin lower)) (some (.group origin' upper)) → r = q) := by
  cases lower with
  | nil => exact nomatch hp
  | cons e lower =>
    cases upper with
    | nil => exact nomatch hq
    | cons e' upper =>
      obtain ⟨key, content⟩ := e
      obtain ⟨key', content'⟩ := e'
      have houtlasts : Outlasts (some (.group origin ((key, content) :: lower)))
          (some (.group origin' ((key', content') :: upper))) ↔ key < key' := by
        constructor
        · rintro ⟨_, _, _, _, _, _, _, _, hl, hu, hlt⟩
          cases hl
          cases hu
          exact hlt
        · intro hlt
          exact ⟨_, _, _, _, _, _, _, _, rfl, rfl, hlt⟩
      rw [houtlasts, SettingTree.layer_group_group]
      by_cases hlt : key < key'
      · obtain ⟨rest, hrest⟩ := SettingTree.exists_layerEntries_eq_of_lt hlower hupper hlt
        rw [hrest]
        have hcontent : Plan.ContentOf key content p := Plan.ofTree_group_eq_ok_iff.mp hp
        exact ⟨p, Plan.ofTree_group_eq_ok_iff.mpr hcontent, fun _ => rfl, fun h => absurd hlt h⟩
      · have hle : key' ≤ key := String.not_lt.mp hlt
        have hcontent : Plan.ContentOf key' content' q := Plan.ofTree_group_eq_ok_iff.mp hq
        -- Under one key the contents are layered too, but no plan's content is a group.
        obtain ⟨rest, hrest⟩ := SettingTree.exists_layerEntries_eq_of_le hlower hupper hle
        rw [hcontent.layer_eq, ite_self] at hrest
        rw [hrest]
        exact ⟨q, Plan.ofTree_group_eq_ok_iff.mpr hcontent, fun h => absurd h hlt, fun _ => rfl⟩

end Groups

/-- The entries of the setting are in order if it is a group. -/
def GroupInOrder (t : Option SettingTree) : Prop :=
  ∀ {origin entries}, t = some (.group origin entries) → InOrder entries

section Plans

variable {b a : Option SettingTree} {p q : Plan}

theorem exists_plan_of_overlay (hb : Stated Plan.ofTree .noop b p)
    (ha : Stated Plan.ofTree .noop a q) (hlower : GroupInOrder b) (hupper : GroupInOrder a) :
    ∃ r, Stated Plan.ofTree .noop (overlay b a) r ∧ Plan.Overlaid b a p q r := by
  by_cases hgroups : AreGroups b a
  · obtain ⟨origin, origin', lower, upper, rfl, rfl⟩ := hgroups
    obtain ⟨r, hr, hstays, hreplaced⟩ :=
      exists_ofTree_layer_group (hlower rfl) (hupper rfl) hb ha
    exact ⟨r, hr, nofun, hstays, fun _ => hreplaced⟩
  · have houtlasts : ¬Outlasts b a := by
      rintro ⟨_, _, _, _, _, _, _, _, hl, hu, -⟩
      exact hgroups ⟨_, _, _, _, hl, hu⟩
    exact ⟨_, stated_overlay hb ha fun _ _ => layer_eq_of_not_areGroups hgroups, fun h => if_pos h,
      fun h => absurd h houtlasts, fun h _ => if_neg h⟩

end Plans

/-! ## The output -/

/-- A format of the environment is a text, which replaces what is below it. -/
theorem layer_of_formatOfTree {t : SettingTree} {format : OutputFormat}
    (h : OutputSettings.formatOfTree t = .ok format) (hsettled : Settled t) (below : SettingTree) :
    layer below t = t := by
  obtain ⟨name, -, ⟨origin, rfl⟩ | ⟨origin, origin', rest, rfl⟩⟩ :=
    SettingTree.readChoice_eq_ok_iff.mp h
  · exact SettingTree.layer_leaf below origin _
  · -- In a group a format has null for content, which no variable holds.
    cases hsettled.of_mem List.mem_cons_self with
    | leaf h => exact absurd rfl h

section Outputs

variable {origin origin' : Origin} {lower upper : List (String × SettingTree)}
  {b a : Option SettingTree} {o o' : OutputSettings}

/-- Of two groups the settings of the upper one count, and otherwise those of the lower one. -/
theorem ofTree_layer_group_group (hlower : InOrder lower) (hsettled : Settled (.group origin' upper))
    (ho : OutputSettings.ofTree (.group origin lower) = .ok o)
    (ho' : OutputSettings.ofTree (.group origin' upper) = .ok o') :
    OutputSettings.ofTree (layer (.group origin lower) (.group origin' upper)) =
      .ok ⟨if upper.lookup "format" = none then o.format else o'.format,
        if upper.lookup "pretty" = none then o.pretty else o'.pretty⟩ := by
  have hupper : InOrder upper := hsettled.inOrder
  rw [OutputSettings.ofTree_group_eq_ok_iff hlower] at ho
  rw [OutputSettings.ofTree_group_eq_ok_iff hupper] at ho'
  rw [SettingTree.layer_group_group,
    OutputSettings.ofTree_group_eq_ok_iff (SettingTree.inOrder_layerEntries hlower upper),
    SettingTree.lookup_layerEntries hupper, SettingTree.lookup_layerEntries hupper]
  constructor
  · refine stated_overlay ho.1 ho'.1 fun below above _ habove => ?_
    have hformat : OutputSettings.formatOfTree above = .ok o'.format :=
      stated_some.mp (habove ▸ ho'.1)
    exact layer_of_formatOfTree hformat (hsettled.of_mem (mem_of_lookup habove)) below
  · refine stated_overlay ho.2 ho'.2 fun below above _ habove => ?_
    have hpretty : above.readBool = .ok o'.pretty := stated_some.mp (habove ▸ ho'.2)
    obtain ⟨origin'', rfl⟩ := SettingTree.readBool_eq_ok_iff.mp hpretty
    exact SettingTree.layer_leaf below origin'' _

theorem OutputSettings.Overlaid.of_unset : OutputSettings.Overlaid b none o o' o :=
  ⟨fun h => absurd h.1 Bool.false_ne_true, fun h => absurd rfl h, fun _ _ => rfl,
    fun h => absurd rfl h, fun _ _ => rfl⟩

theorem OutputSettings.Overlaid.of_isReplaced (h : IsReplaced b a) :
    OutputSettings.Overlaid b a o o' o' :=
  ⟨fun _ => rfl, fun _ => rfl, fun _ hkept => absurd h hkept, fun _ => rfl,
    fun _ hkept => absurd h hkept⟩

theorem exists_output_of_overlay (hb : Stated OutputSettings.ofTree {} b o)
    (ha : Stated OutputSettings.ofTree {} a o') (hlower : GroupInOrder b)
    (hsettled : ∀ t, a = some t → Settled t) :
    ∃ r, Stated OutputSettings.ofTree {} (overlay b a) r ∧ OutputSettings.Overlaid b a o o' r := by
  by_cases hgroups : AreGroups b a
  · obtain ⟨origin, origin', lower, upper, rfl, rfl⟩ := hgroups
    have hupper : Settled (.group origin' upper) := hsettled _ rfl
    have hreplaced : ¬IsReplaced (some (.group origin lower)) (some (.group origin' upper)) :=
      fun h => h.2 ⟨rfl, rfl⟩
    exact ⟨_, ofTree_layer_group_group (hlower rfl) hupper hb ha,
      fun h => absurd h hreplaced, fun h => if_neg h, fun h _ => if_pos h, fun h => if_neg h,
      fun h _ => if_pos h⟩
  · refine ⟨_, stated_overlay hb ha fun _ _ => layer_eq_of_not_areGroups hgroups, ?_⟩
    cases a with
    | none => exact .of_unset
    | some above =>
      rw [if_neg (Option.some_ne_none above)]
      cases b with
      | some below => exact .of_isReplaced (isReplaced_of_not_areGroups hgroups)
      | none =>
        obtain rfl : o = {} := hb
        cases above with
        | group origin upper =>
          have horder : InOrder upper := (hsettled _ rfl).inOrder
          obtain ⟨hformat, hpretty⟩ := (OutputSettings.ofTree_group_eq_ok_iff horder).mp ha
          exact ⟨fun _ => rfl, fun _ => rfl,
            fun (h : upper.lookup "format" = none) _ => stated_none.mp (h ▸ hformat), fun _ => rfl,
            fun (h : upper.lookup "pretty" = none) _ => stated_none.mp (h ▸ hpretty)⟩
        | leaf _ _ | list _ _ =>
          exact .of_isReplaced ⟨rfl, fun h => absurd h.2 Bool.false_ne_true⟩

end Outputs

/-! ## Files and environments -/

/-- A file and an environment that are accepted alone are accepted together, and their settings
are laid over each other.  The environment has a setting exactly if a variable's name begins with its
key (`Environment.lookup_settings_ne_none_iff`). -/
theorem load_overlaid {file : SettingsFile} {env : List (String × String)} {below above : Settings}
    (hfile : Settings.load file [] = .ok below) (henv : Settings.load .unnamed env = .ok above) :
    ∃ lower merged, file.entries = .ok lower ∧ Settings.load file env = .ok merged ∧
      Settings.Overlaid lower (Environment.settings env) below above merged := by
  obtain ⟨lower, hlower, hbelow⟩ := Settings.stated_of_load hfile
  obtain ⟨_, hnone, habove⟩ := Settings.load_eq_ok_iff.mp henv
  obtain rfl := Except.ok.inj hnone
  obtain ⟨horder, hgroups⟩ := SettingsFile.inOrder_of_entries hlower
  obtain ⟨horder', hsettled⟩ := Environment.settled_settings env
  rw [Settings.ofEntries_eq_ok_iff (SettingTree.inOrder_layerEntries .nil _),
    SettingTree.lookup_layerEntries horder', SettingTree.lookup_layerEntries horder'] at habove
  simp only [List.lookup_nil, SettingTree.overlay_none_left] at habove
  have hupper : ∀ {key t}, (Environment.settings env).lookup key = some t → Settled t :=
    fun h => hsettled _ (mem_of_lookup h)
  obtain ⟨plan, hplan, hplans⟩ := exists_plan_of_overlay hbelow.1 habove.1 hgroups
    fun h => (hupper h).inOrder
  obtain ⟨output, houtput, houtputs⟩ := exists_output_of_overlay hbelow.2 habove.2 hgroups
    fun _ => hupper
  refine ⟨lower, ⟨plan, output⟩, hlower, Settings.load_eq_ok_iff.mpr ⟨lower, hlower, ?_⟩,
    hplans, houtputs⟩
  rw [Settings.ofEntries_eq_ok_iff (SettingTree.inOrder_layerEntries horder _),
    SettingTree.lookup_layerEntries horder', SettingTree.lookup_layerEntries horder']
  exact ⟨hplan, houtput⟩

/-- A file that sets the transformer and one half of the output, under a variable for the other. -/
theorem load_overlaid_of_format :
    let file : SettingsFile := .text "transformer:\n  chain: []\noutput:\n  pretty: false"
    let env := [("METHOD_TRANSFORM_OUTPUT__FORMAT", "yaml")]
    Settings.load file [] = .ok ⟨.chain [], .json, false⟩ ∧
      Settings.load .unnamed env = .ok ⟨.noop, .yaml, true⟩ ∧
      Settings.load file env = .ok ⟨.chain [], .yaml, false⟩ := by
  intro file env
  have hfile : Settings.load file [] = .ok ⟨.chain [], .json, false⟩ :=
    eq_ok_of_toOption (by decide +kernel)
  have henv : Settings.load .unnamed env = .ok ⟨.noop, .yaml, true⟩ :=
    eq_ok_of_toOption (by decide +kernel)
  obtain ⟨lower, merged, hlower, hload, hoverlaid⟩ := load_overlaid hfile henv
  have houtput := hoverlaid.output
  have hvariable : ∀ v ∈ env, ∀ keys, Environment.keys? v.1 ≠ some ("transformer" :: keys) := by
    have hkeys : Environment.keys? "METHOD_TRANSFORM_OUTPUT__FORMAT" = some ["output", "format"] := by
      decide +kernel
    simp [env, hkeys]
  have hkept : ¬IsReplaced (lower.lookup "output") ((Environment.settings env).lookup "output") := by
    have htest : file.entries.toOption.map (fun lower => decide (IsReplaced (lower.lookup "output")
        ((Environment.settings env).lookup "output"))) = some false := by decide +kernel
    obtain ⟨lower', hlower', htest⟩ := exists_eq_ok_of_toOption_map htest
    obtain rfl := Except.ok.inj (hlower.symm.trans hlower')
    exact of_decide_eq_false htest
  have hformats : (settingIn ((Environment.settings env).lookup "output") "format").isSome = true := by
    decide +kernel
  have hpretties : (settingIn ((Environment.settings env).lookup "output") "pretty").isNone = true := by
    decide +kernel
  have hformat : merged.output.format = .yaml :=
    houtput.format_of_set (Option.isSome_iff_ne_none.mp hformats)
  have hpretty : merged.output.pretty = false :=
    houtput.pretty_of_unset (Option.isNone_iff_eq_none.mp hpretties) hkept
  have hunset : merged.plan = .chain [] := hoverlaid.plan_eq_of_no_variable hvariable
  obtain ⟨plan, format, pretty⟩ := merged
  subst hformat hpretty hunset
  exact ⟨hfile, henv, hload⟩

/-- Two groups become one, and its least key is the variant: the file's. -/
theorem load_of_two_variants :
    let file : SettingsFile := .text "transformer:\n  chain: []"
    let env := [("METHOD_TRANSFORM_TRANSFORMER__OVERRIDE", "[static]")]
    Settings.load file [] = .ok { plan := .chain [] } ∧
      Settings.load .unnamed env = .ok { plan := .override [.static] } ∧
      Settings.load file env = .ok { plan := .chain [] } := by
  intro file env
  refine ⟨eq_ok_of_toOption ?_, eq_ok_of_toOption ?_, eq_ok_of_toOption ?_⟩ <;> decide +kernel

end Redeclare
