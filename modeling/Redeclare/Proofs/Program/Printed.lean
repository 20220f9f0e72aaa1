import Redeclare.Proofs.Program.Apply
import Redeclare.Proofs.Yaml.Ending

/-!
# What a run of `apply` prints in YAML

The output is the rendered document with the white space at its end cut off and
a line feed put there.  That is the rendered document itself exactly if the last
scalar has no white space of its own at its end; then the output reads back as
whatever the document reads back as.

A block that keeps more than one line feed, or a plain scalar that ends in a
blank character which YAML does not count as space, loses characters.
-/

namespace Redeclare

open Yaml

/-- Reads a list of methods from a text in YAML. -/
def Method.readAllYaml (text : String) : Except TextFault (List Method) :=
  readDocument (fun d => d.rootPlace.readList Method.readPlace) text

namespace Program

/-- The output of methods in YAML is their rendered document exactly if the last scalar of the
document is solid at its end. -/
theorem printed_yaml_eq_write_iff (settings : Settings) (methods : List Method) :
    printed settings (some .yaml) methods = Yaml.write (.list (methods.map Method.form)) ↔
      (Form.list (methods.map Method.form)).EndsSolid :=
  trimEnd_write_iff _

/-- A run of `apply` that is asked for YAML prints the rendered document, and so what reads back as
the transformed methods, as long as the last scalar is solid at its end; otherwise it prints
another text. -/
theorem run_apply_yaml {s : Surroundings} {args : List String} {i : Invocation}
    {settings : Settings} {owner input : String} {tokens : List MethodToken}
    (hargs : CommandLine.read s.environment args = .ok i)
    (hcommand : i.command = .apply owner input (some .yaml))
    (hsettings : loadSettings s i.config = .ok settings)
    (htokens : HoldsTokens (s.file input) tokens) :
    let methods := tokens.map (settings.plan.applied owner)
    let document := Form.list (methods.map Method.form)
    ((run s args).output = Yaml.write document ↔ document.EndsSolid) ∧
      (document.EndsSolid → Method.readAllYaml (Yaml.write document) = .ok methods →
        Method.readAllYaml (run s args).output = .ok methods) := by
  intro methods document
  have houtput : (run s args).output = printed settings (some .yaml) methods := by
    rw [run_eq_apply hargs hcommand hsettings]
    exact (apply_of_load_eq_ok (load_eq_ok_iff.mpr (.inl htokens))).2
  rw [houtput]
  have hprinted := printed_yaml_eq_write_iff settings methods
  refine ⟨hprinted, fun hsolid hread => ?_⟩
  rw [hprinted.mpr hsolid]
  exact hread

/-- A method whose default value is a text. -/
def withDefault (text : String) : Method :=
  ⟨⟨"A"⟩, { name := "m", returnType := ⟨"int"⟩, defaultValue := some (.text text) }⟩

/-- Surroundings with the token of that method in every file; the text is given as it stands in
double quotes. -/
def fileWithDefault (quoted : String) : Surroundings where
  environment := []
  file _ := .bytes ("- name: m\n  return_type: int\n  default_value: \"" ++ quoted ++ "\"").toUTF8

/-- A block that ends with one line feed is read back. -/
theorem run_apply_yaml_of_line :
    (Form.list [(withDefault "x\n").form]).EndsSolid ∧
      Method.readAllYaml (run (fileWithDefault "x\\n")
        ["apply", "--owner", "A", "--format", "yaml", "m.yaml"]).output = .ok [withDefault "x\n"] := by
  have hargs : CommandLine.read [] ["apply", "--owner", "A", "--format", "yaml", "m.yaml"] =
      .ok ⟨none, "info", none, .apply "A" "m.yaml" (some .yaml)⟩ := rfl
  have hsettings : loadSettings (fileWithDefault "x\\n") none = .ok {} := rfl
  have hload : (MethodToken.load ((fileWithDefault "x\\n").file "m.yaml")).toOption =
      some [(withDefault "x\n").token] := by decide +kernel
  have htokens : HoldsTokens ((fileWithDefault "x\\n").file "m.yaml") [(withDefault "x\n").token] := by
    rcases load_eq_ok_iff.mp (eq_ok_of_toOption hload) with h | ⟨-, h⟩
    · exact h
    · exact absurd h (by simp)
  have hsolid : (Form.list [(withDefault "x\n").form]).EndsSolid :=
    (trimEnd_write_iff _).mp (by decide +kernel)
  have hread : (Method.readAllYaml (Yaml.write (.list [(withDefault "x\n").form]))).toOption =
      some [withDefault "x\n"] := by decide +kernel
  have hmethods : [(withDefault "x\n").token].map (Plan.noop.applied "A") = [withDefault "x\n"] := rfl
  have hrun := run_apply_yaml (s := fileWithDefault "x\\n") hargs rfl hsettings htokens
  dsimp only at hrun
  rw [hmethods] at hrun
  exact ⟨hsolid, hrun.2 hsolid (eq_ok_of_toOption hread)⟩

/-- A block that ends with an empty line loses that line. -/
theorem run_apply_yaml_of_empty_line :
    (Method.readAllYaml (Yaml.write (.list [(withDefault "x\n\n").form]))).toOption =
        some [withDefault "x\n\n"] ∧
      (Method.readAllYaml (run (fileWithDefault "x\\n\\n")
        ["apply", "--owner", "A", "--format", "yaml", "m.yaml"]).output).toOption =
        some [withDefault "x\n"] ∧ withDefault "x\n" ≠ withDefault "x\n\n" := by
  refine ⟨?_, ?_, ?_⟩ <;> decide +kernel

end Program

end Redeclare
