import Redeclare.Error
import Redeclare.Proofs.Method.RoundTrip
import Redeclare.Proofs.Reading.Place

/-!
# Methods written in JSON are read as tokens

What is printed in JSON may be the input of the next run.  The input is read as
a YAML document, where a plain scalar is taken by the kind that is asked for and
a text in quotes never is anything but a text.

* `MethodToken.read_method_form` reads the token off a method in every source:
  the declaring type is a key without a field.
* `MethodToken.parseAll_render` reads the list of tokens off the text of a list
  of methods, if the text shows the list.
* `MethodToken.parseAll_render_of_isLegible` is the case where it does because
  the strings are legible.
-/

namespace Redeclare

open RecordReader Yaml

namespace MethodToken

section

variable {σ : Type} {m : Type → Type} [FaultMonad m] [YieldMonad m] [Source σ m] [FormSource σ m]

/-- The token of a method reads back from the form of the method. -/
theorem read_method_form {x : σ} {method : Method} (h : Shows x method.form) :
    Yields (Source.record reader x) method.token := by
  refine yields_record h fun fieldOf pairs hpairs => ?_
  obtain ⟨⟨key, owner⟩, rest, ⟨hkey, -⟩, hrest, rfl⟩ := List.forall₂_cons_right_iff.mp hpairs
  have howner : (reader (σ := σ)).field? "declaring_type" = none := by
    have hnot : "declaring_type" ∉ RecordKind.token.fields := by decide
    exact if_neg hnot
  rw [howner] at hkey
  exact yields_readPairs (yields_fill_cons_of_unknown hkey (fill_fields hrest))
    method.token.finish_filled

end

/-- The tokens of methods are read from a document that shows the methods. -/
theorem parseAll_of_presents {text : String} {methods : List Method}
    (hpresents : Presents text (Form.list (methods.map Method.form)).toJson)
    (hdepth : (Form.list (methods.map Method.form)).toJson.nesting ≤ maxDepth) :
    parseAll text = .ok (methods.map Method.token) := by
  obtain ⟨d, hd, hroot⟩ := hpresents
  have hshow : Shows d.rootPlace (.list (methods.map Method.form)) := by
    have hnumbers : (Form.list (methods.map Method.form)).toJson.Exact :=
      Form.exact_list fun m _ => m.exact_form
    refine ⟨?_, hdepth, hnumbers⟩
    rw [Document.rootPlace, hroot]
    rfl
  have hread : Yields (Source.list (Source.record reader) d.rootPlace) (methods.map Method.token) := by
    refine yields_list hshow (List.forall₂_map_left_iff.mpr (List.forall₂_map_right_iff.mpr ?_))
    exact List.forall₂_same.mpr fun m _ x hx => read_method_form hx
  have hall : readAll text = .ok (methods.map Method.token) :=
    readDocument_eq_ok_iff.mpr ⟨d, 0, hd, hread 0⟩
  rw [parseAll, hall]
  rfl

/-- The tokens of methods that are printed in JSON, in either layout, are read again from the text, in
order.  That the text holds the tree that was printed is what the format promises of a JSON text;
`presents_write` shows it for texts whose strings are legible. -/
theorem parseAll_render (methods : List Method) (pretty : Bool)
    (hpresents : Presents (OutputFormat.json.render pretty (.list (methods.map Method.form)))
      (Form.list (methods.map Method.form)).toJson)
    (hdepth : (Form.list (methods.map Method.form)).toJson.nesting ≤ maxDepth) :
    parseAll (OutputFormat.json.render pretty (.list (methods.map Method.form))) =
      .ok (methods.map Method.token) :=
  parseAll_of_presents hpresents hdepth

/-- Texts that look like nothing, like a number or like a truth value stay texts, and a number stays a
number. -/
theorem parseAll_render_of_lookalikes :
    let methods : List Method := [⟨⟨"12"⟩, {
      name := "null"
      returnType := ⟨"0x1"⟩
      defaultValue := some (.array [.text "true", .integer (-7)]) }⟩]
    let form := Form.list (methods.map Method.form)
    Presents (OutputFormat.json.render false form) form.toJson ∧ form.toJson.nesting ≤ maxDepth ∧
      parseAll (OutputFormat.json.render false form) = .ok (methods.map Method.token) := by
  intro methods form
  have hlegible : form.toJson.isLegible = true := by decide
  have hpresents : Presents (OutputFormat.json.render false form) form.toJson :=
    presents_write .compact hlegible
  have hdepth : form.toJson.nesting ≤ maxDepth := by decide
  exact ⟨hpresents, hdepth, parseAll_render methods false hpresents hdepth⟩

/-- Methods whose strings are legible are read again as their tokens; nothing is asked of the text. -/
theorem parseAll_render_of_isLegible (methods : List Method) (pretty : Bool)
    (hlegible : (Form.list (methods.map Method.form)).toJson.isLegible = true)
    (hdepth : (Form.list (methods.map Method.form)).toJson.nesting ≤ maxDepth) :
    parseAll (OutputFormat.json.render pretty (.list (methods.map Method.form))) =
      .ok (methods.map Method.token) :=
  parseAll_of_presents (presents_write _ hlegible) hdepth

end MethodToken

end Redeclare
