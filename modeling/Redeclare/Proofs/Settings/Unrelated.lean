import Redeclare.Program
import Redeclare.Proofs.Settings.Environment
import Redeclare.Proofs.Settings.File

/-!
# Variables that are no settings

The variables that supply options of the command line have names that begin like
those of settings, so they are among the entries that are laid over a file.  They
are passed over there: settings are read from the keys that are known, and no
key of a variable changes what lies under another key.

* `Environment.filter_addVariable` is about one variable, and
  `Environment.filter_settings` about all of them: the entries of certain keys are
  those of the variables that concern these keys.
* `Settings.ofEntries_filter` reads settings from the known keys alone, and
  `Settings.load_filter` loads them from the variables that concern these.
* `Settings.load_eq_of_suppliers_apart` compares two environments that differ in
  nothing but the variables of the command line.
-/

namespace Redeclare

/-! ## Variables and keys -/

namespace Environment

/-- The first key that a variable's name stands for is one of these. -/
def concerns (p : String → Bool) (name : String) : Bool :=
  match keys? name with
  | some (key :: _) => p key
  | _ => false

variable (p : String → Bool)

/-- A variable that concerns none of the keys changes nothing under them, and one that does makes of
their entries what it makes of all. -/
theorem filter_addVariable {entries : List (String × SettingTree)} (h : InOrder entries)
    (v : String × String) : (addVariable entries v).filter (fun e => p e.1) =
      if concerns p v.1 then addVariable (entries.filter fun e => p e.1) v
      else entries.filter fun e => p e.1 := by
  unfold addVariable concerns
  rcases keys? v.1 with _ | _ | ⟨key, keys⟩
  · rfl
  · rfl
  · have hsingle : InOrder [(key, nest (ofValue v.2) keys)] := List.pairwise_singleton _ _
    dsimp only
    rw [SettingTree.filter_layerEntries p h hsingle, List.filter_singleton]
    by_cases hkey : p key = true
    · simp [hkey]
    · simp [hkey, SettingTree.layerEntries]

/-- The settings under certain keys are made by the variables that concern them. -/
theorem filter_settings (env : List (String × String)) :
    (settings env).filter (fun e => p e.1) = settings (env.filter fun v => concerns p v.1) := by
  have hfold : ∀ entries, InOrder entries → (env.foldl addVariable entries).filter (fun e => p e.1) =
      (env.filter fun v => concerns p v.1).foldl addVariable (entries.filter fun e => p e.1) := by
    induction env with
    | nil => exact fun _ _ => rfl
    | cons v env ih =>
      intro entries h
      rw [List.foldl_cons, ih _ (inOrder_addVariable h v), filter_addVariable p h, List.filter_cons]
      cases concerns p v.1 <;> rfl
  exact hfold [] .nil

end Environment

/-! ## Known keys -/

namespace Settings

/-- The keys that mean something in settings. -/
def isKnown (key : String) : Bool :=
  key == "transformer" || key == "output"

theorem change_filter (s : Settings) (entries : List (String × SettingTree)) :
    change s (entries.filter fun e => isKnown e.1) = change s entries := by
  induction entries generalizing s with
  | nil => rfl
  | cons e entries ih =>
    obtain ⟨key, t⟩ := e
    rw [List.filter_cons]
    cases hkey : isKnown key with
    | true =>
      rw [if_pos rfl, change, change]
      exact bind_congr fun s => ih s
    | false =>
      obtain ⟨hplan, houtput⟩ : (key == "transformer") = false ∧ (key == "output") = false := by
        simpa [isKnown] using hkey
      rw [if_neg Bool.false_ne_true, change, hplan, houtput]
      exact ih s

/-- The other keys are passed over, whatever stands under them. -/
theorem ofEntries_filter (entries : List (String × SettingTree)) :
    ofEntries (entries.filter fun e => isKnown e.1) = ofEntries entries :=
  change_filter {} entries

/-- What is loaded, or why nothing is, depends on the variables that concern a known key. -/
theorem load_filter (file : SettingsFile) (env : List (String × String)) :
    load file (env.filter fun v => Environment.concerns isKnown v.1) = load file env := by
  cases hfile : file.entries with
  | error fault => rw [load, load, hfile]; rfl
  | ok lower =>
    have hlower : InOrder lower := (SettingsFile.inOrder_of_entries hfile).1
    have hupper : ∀ env, InOrder (Environment.settings env) := fun env =>
      (Environment.settled_settings env).1
    have hsame : ofEntries (SettingTree.layerEntries lower
          (Environment.settings (env.filter fun v => Environment.concerns isKnown v.1))) =
        ofEntries (SettingTree.layerEntries lower (Environment.settings env)) := by
      rw [← ofEntries_filter, ← ofEntries_filter (SettingTree.layerEntries lower (Environment.settings env)),
        SettingTree.filter_layerEntries _ hlower (hupper _), SettingTree.filter_layerEntries _ hlower (hupper _),
        Environment.filter_settings, Environment.filter_settings, List.filter_filter]
      simp
    rw [load, load, hfile]
    exact congrArg (Except.mapError LoadFault.setting) hsame

end Settings

/-! ## The command line -/

namespace CommandLine

/-- The variables that supply options of the command line. -/
def suppliers : List String :=
  [Slot.config, .logLevel, .logFormat].filterMap supplier?

/-- None of them concerns a known key, though each is the name of a setting. -/
theorem concerns_eq_false_of_mem : ∀ name ∈ suppliers,
    Environment.concerns Settings.isKnown name = false := by
  decide

end CommandLine

namespace Settings

open CommandLine (suppliers)

/-- The variables that concern a known key are among those that supply no option. -/
theorem filter_concerns_of_suppliers_apart (env : List (String × String)) :
    (env.filter fun v => v.1 ∉ suppliers).filter (fun v => Environment.concerns isKnown v.1) =
      env.filter fun v => Environment.concerns isKnown v.1 := by
  rw [List.filter_filter]
  refine List.filter_congr fun v _ => ?_
  by_cases hv : v.1 ∈ suppliers
  · simp [CommandLine.concerns_eq_false_of_mem v.1 hv]
  · simp [hv]

/-- The variables that supply options make no difference to the settings, whatever their values, whether
they are there or not, and among whatever other variables they stand: a file, or none, is loaded as the
same settings, or refused for the same reason. -/
theorem load_eq_of_suppliers_apart {env env' : List (String × String)}
    (h : (env.filter fun v => v.1 ∉ suppliers) = env'.filter fun v => v.1 ∉ suppliers) :
    (∀ file, load file env = load file env') ∧
      ∀ (files : String → FileState) (config : Option String),
        Program.loadSettings ⟨env, files⟩ config = Program.loadSettings ⟨env', files⟩ config := by
  have hload : ∀ file, load file env = load file env' := by
    intro file
    rw [← load_filter file env, ← load_filter file env', ← filter_concerns_of_suppliers_apart env, h,
      filter_concerns_of_suppliers_apart env']
  refine ⟨hload, fun files config => ?_⟩
  unfold Program.loadSettings
  dsimp only
  simp only [hload]
  rfl

/-- Values that would be a plan and a format under other names, and one that is no value but a text, among
a variable that is a setting. -/
theorem load_eq_of_suppliers_apart_of_groups :
    let file : SettingsFile := .text "config: [a]\ntransformer:\n  chain: []\n"
    let env := [("METHOD_TRANSFORM_OUTPUT__FORMAT", "yaml")]
    let env' := [("METHOD_TRANSFORM_CONFIG", "\x7btransformer=noop\x7d"),
      ("METHOD_TRANSFORM_OUTPUT__FORMAT", "yaml"), ("METHOD_TRANSFORM_LOG_LEVEL", "[trace"),
      ("METHOD_TRANSFORM_LOG_FORMAT", "\x7boutput=\x7bformat=json\x7d\x7d")]
    ((env.filter fun v => v.1 ∉ suppliers) = env'.filter fun v => v.1 ∉ suppliers) ∧
      load file env = .ok ⟨.chain [], .yaml, true⟩ ∧ load file env' = .ok ⟨.chain [], .yaml, true⟩ := by
  intro file env env'
  have happart : (env.filter fun v => v.1 ∉ suppliers) = env'.filter fun v => v.1 ∉ suppliers := by
    decide
  have hload : load file env = .ok ⟨.chain [], .yaml, true⟩ := eq_ok_of_toOption (by decide +kernel)
  exact ⟨happart, hload, (load_eq_of_suppliers_apart happart).1 file ▸ hload⟩

end Settings

end Redeclare
