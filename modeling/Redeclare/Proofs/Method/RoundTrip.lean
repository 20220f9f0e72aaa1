import Redeclare.Proofs.Modifiers.Text
import Redeclare.Proofs.Reading.Form
import Redeclare.Reading.JsonText
import Redeclare.Settings.Basic

/-!
# Methods written in JSON read back

The readers of methods give back the method whose written form they are given:
what is left out has the default that it had, and nothing of what is written is
taken for anything else.

* One lemma for each part of a method reads the part from its form, in every
  source that shows it: `read_form` of scalars, annotations, type variables and
  parameters.
* `MethodToken.fills_fields` follows the fields of a token in the order in which
  they are written, and `Method.ofValue_form` takes the declaring type off them.
* `Method.exact_form` says that no number of a method is rounded.
* `Method.readJson_render` puts the two steps of a reader together: text to
  value, value to method.
-/

namespace Redeclare

/-! ## Parts of a method -/

section Parts

variable {σ : Type} {m : Type → Type} [FaultMonad m] [YieldMonad m] [Source σ m] [FormSource σ m] {x : σ}

theorem readText_form {s : String} (h : Shows x (.text s)) : Yields (readText x) s :=
  yields_text h rfl

theorem TypeName.read_form {t : TypeName} (h : Shows x t.form) : Yields (TypeName.read x) t :=
  yields_text h rfl

theorem TypeName.list_form {ts : List TypeName} (h : Shows x (.list (ts.map TypeName.form))) :
    Yields (Source.list TypeName.read x) ts :=
  yields_list_map h fun _ _ _ => TypeName.read_form

theorem Modifiers.readFrom_form {flags : Modifiers} (h : Shows x flags.form) :
    Yields (Modifiers.readFrom x) flags := by
  refine yields_text h ?_
  rw [Modifiers.read_write]
  rfl

namespace AnnotationValue

theorem int64?_toInt (n : Int64) : int64? n.toInt = some n := by
  have hlow := n.le_toInt
  have hhigh := n.toInt_lt
  rw [int64?, if_pos (by omega), Int64.ofInt_toInt]

mutual

theorem ofValue?_form : ∀ v : AnnotationValue, ofValue? v.form.value = some v
  | .boolean _ => rfl
  | .integer n => by
    rw [form, Form.value_int, ofValue?, int64?_toInt]
    rfl
  | .text _ => rfl
  | .array values => by
    rw [form, Form.value_list, ofValue?, ofValues?_forms values]
    rfl

theorem ofValues?_forms : ∀ vs : List AnnotationValue,
    ofValues? ((forms vs).map Form.value) = some vs
  | [] => rfl
  | v :: vs => by rw [forms, List.map_cons, ofValues?, ofValue?_form v, ofValues?_forms vs]

end

theorem read_form {v : AnnotationValue} (h : Shows x v.form) : Yields (AnnotationValue.read x) v := by
  refine yields_bind (yields_buffer h) ?_
  rw [ofValue?_form]
  exact yields_pure v

end AnnotationValue

/-! ## Records -/

open RecordReader

theorem TypeVariable.read_form {v : TypeVariable} (h : Shows x v.form) :
    Yields (Source.record TypeVariable.reader x) v := by
  have hfill : Fills (σ := σ) TypeVariable.reader
      [("symbol", .text v.symbol), ("bounds", .list (v.bounds.map TypeName.form))] {}
      ⟨some v.symbol, some v.bounds⟩ :=
    .cons (fun _ hsymbol => yields_map _ (readText_form hsymbol))
      (.cons (fun _ hbounds => yields_map _ (TypeName.list_form hbounds)) .nil)
  exact yields_record_of_fills h (List.Sublist.refl _) hfill rfl

namespace Annotation

/-- The values of an annotation read back as its map, whose keys are in order. -/
theorem entries_form {values : KeyMap AnnotationValue}
    (h : Shows x (.record (values.entries.map fun e => (e.1, e.2.form)))) :
    Yields (Source.entries AnnotationValue.read x) values.entries := by
  refine yields_entries h (List.forall₂_map_left_iff.mpr (List.forall₂_same.mpr ?_))
  exact fun _ _ => ⟨rfl, fun _ => AnnotationValue.read_form⟩

theorem read_form {a : Annotation} (h : Shows x a.form) : Yields (Source.record reader x) a := by
  rw [form] at h
  cases hempty : a.values.isEmpty with
  | true =>
    have hnone : a.values = .empty := KeyMap.ext_entries (List.isEmpty_iff.mp hempty)
    have hfill : Fills (σ := σ) reader [("type", a.type.form)] {} ⟨some a.type, none⟩ :=
      .cons (fun _ htype => yields_map _ (TypeName.read_form htype)) .nil
    have hfields : ["type"].Sublist RecordKind.annotated.fields := by decide
    have hfinish : Except.ok (⟨a.type, .empty⟩ : Annotation) = .ok (ε := String) a := by rw [← hnone]
    rw [hempty] at h
    exact yields_record_of_fills h hfields hfill hfinish
  | false =>
    have hvalues : ∀ y : σ, Shows y (.record (a.values.entries.map fun e => (e.1, e.2.form))) →
        Yields (reader.put "values" y ⟨some a.type, none⟩) ⟨some a.type, some a.values⟩ := by
      intro y hy
      have hread := yields_map (fun entries => (⟨some a.type, some (.ofList entries)⟩ : Draft))
        (entries_form hy)
      rwa [KeyMap.ofList_entries] at hread
    have hfill : Fills (σ := σ) reader
        [("type", a.type.form), ("values", .record (a.values.entries.map fun e => (e.1, e.2.form)))]
        {} ⟨some a.type, some a.values⟩ :=
      .cons (fun _ htype => yields_map _ (TypeName.read_form htype)) (.cons hvalues .nil)
    rw [hempty] at h
    exact yields_record_of_fills h (List.Sublist.refl _) hfill rfl

theorem list_form {as : List Annotation} (h : Shows x (.list (as.map form))) :
    Yields (Source.list (Source.record reader) x) as :=
  yields_list_map h fun _ _ _ => read_form

end Annotation

namespace Parameter

/-- The fields that are written, in the order of their declaration. -/
theorem map_fst_fields (p : Parameter) :
    ((("type", p.type.form) :: Form.ifPresent "name" .text p.name ++ ("modifiers", p.modifiers.form) ::
      Form.unlessEmpty "annotations" Annotation.form p.annotations).map Prod.fst).Sublist
        RecordKind.parameter.fields := by
  rw [List.map_append]
  exact ((map_fst_ifPresent_sublist "name" Form.text p.name).cons_cons "type").append
    ((map_fst_unlessEmpty_sublist "annotations" Annotation.form p.annotations).cons_cons "modifiers")

/-- The draft behind the written fields. -/
def filled (p : Parameter) : Draft :=
  ⟨some p.type, p.name.map some, some p.modifiers, written p.annotations⟩

theorem finish_filled {τ : Type} {n : Type → Type} [FaultMonad n] [Source τ n] (p : Parameter) :
    (reader (σ := τ)).finish p.filled = .ok p := by
  change Except.ok (⟨p.type, (p.name.map some).getD none, p.modifiers,
    (written p.annotations).getD []⟩ : Parameter) = _
  rw [getD_map_some, getD_written]

theorem read_form {p : Parameter} (h : Shows x p.form) : Yields (Source.record reader x) p := by
  have hname : Fills (σ := σ) reader (("type", p.type.form) :: Form.ifPresent "name" .text p.name) {}
      { type := some p.type, name := p.name.map some } :=
    .cons (fun _ htype => yields_map _ (TypeName.read_form htype))
      (Fills.ifPresent (fun o => ({ type := some p.type, name := o } : Draft)) rfl
        fun _ _ _ hname => yields_map _ (yields_option hname (readText_form hname)))
  have hrest : Fills (σ := σ) reader
      (("modifiers", p.modifiers.form) :: Form.unlessEmpty "annotations" Annotation.form p.annotations)
      { type := some p.type, name := p.name.map some } p.filled :=
    .cons (fun _ hflags => yields_map _ (Modifiers.readFrom_form hflags))
      (Fills.unlessEmpty
        (fun o => (⟨some p.type, p.name.map some, some p.modifiers, o⟩ : Draft)) rfl
        fun _ hlist => yields_map _ <| Annotation.list_form hlist)
  exact yields_record_of_fills h p.map_fst_fields (hname.append hrest) p.finish_filled

end Parameter

namespace MethodToken

/-- The fields that are written, in the order of their declaration. -/
theorem map_fst_fields (t : MethodToken) :
    (t.fields.map Prod.fst).Sublist RecordKind.token.fields := by
  have hvariables := map_fst_unlessEmpty_sublist "type_variables" TypeVariable.form t.typeVariables
  have hexceptions := map_fst_unlessEmpty_sublist "exception_types" TypeName.form t.exceptionTypes
  have hannotations := map_fst_unlessEmpty_sublist "annotations" Annotation.form t.annotations
  have hdefault := map_fst_ifPresent_sublist "default_value" AnnotationValue.form t.defaultValue
  rw [fields, List.map_append, List.map_append, List.map_append]
  exact ((((hvariables.cons_cons "modifiers").cons_cons "name").append
    ((hexceptions.cons_cons "parameters").cons_cons "return_type")).append hannotations).append
      hdefault

/-- The draft behind the parameters, with what is read behind them. -/
def draft (t : MethodToken) (exceptionTypes : Option (List TypeName))
    (annotations : Option (List Annotation)) (defaultValue : Option (Option AnnotationValue)) : Draft :=
  ⟨some t.name, some t.modifiers, written t.typeVariables, some t.returnType, some t.parameters,
    exceptionTypes, annotations, defaultValue⟩

/-- The draft behind the written fields. -/
def filled (t : MethodToken) : Draft :=
  t.draft (written t.exceptionTypes) (written t.annotations) (t.defaultValue.map some)

theorem finish_filled {τ : Type} {n : Type → Type} [FaultMonad n] [Source τ n] (t : MethodToken) :
    (reader (σ := τ)).finish t.filled = .ok t := by
  change Except.ok (⟨t.name, t.modifiers, (written t.typeVariables).getD [], t.returnType,
    t.parameters, (written t.exceptionTypes).getD [], (written t.annotations).getD [],
    (t.defaultValue.map some).getD none⟩ : MethodToken) = _
  rw [getD_map_some, getD_written, getD_written, getD_written]

/-- The fields of a token fill the draft in four steps, one behind each part that may be left out. -/
theorem fills_fields (t : MethodToken) : Fills (σ := σ) reader t.fields {} t.filled := by
  have hhead : Fills (σ := σ) reader (("name", .text t.name) :: ("modifiers", t.modifiers.form)
      :: Form.unlessEmpty "type_variables" TypeVariable.form t.typeVariables) {}
      { name := some t.name, modifiers := some t.modifiers,
        typeVariables := written t.typeVariables } :=
    .cons (fun _ hname => yields_map _ (readText_form hname))
      (.cons (fun _ hflags => yields_map _ (Modifiers.readFrom_form hflags)) (Fills.unlessEmpty
        (fun o => ({ name := some t.name, modifiers := some t.modifiers, typeVariables := o } : Draft))
        rfl fun _ hlist => yields_map _ (yields_list_map hlist fun _ _ _ => TypeVariable.read_form)))
  have hsignature : Fills (σ := σ) reader (("return_type", t.returnType.form)
      :: ("parameters", .list (t.parameters.map Parameter.form))
      :: Form.unlessEmpty "exception_types" TypeName.form t.exceptionTypes)
      { name := some t.name, modifiers := some t.modifiers,
        typeVariables := written t.typeVariables }
      (t.draft (written t.exceptionTypes) none none) :=
    .cons (fun _ htype => yields_map _ (TypeName.read_form htype))
      (.cons (fun _ hlist => yields_map _ (yields_list_map hlist fun _ _ _ => Parameter.read_form))
        (Fills.unlessEmpty (t.draft · none none) rfl
          fun _ hlist => yields_map _ (TypeName.list_form hlist)))
  have hmarks : Fills (σ := σ) reader
      (Form.unlessEmpty "annotations" Annotation.form t.annotations)
      (t.draft (written t.exceptionTypes) none none)
      (t.draft (written t.exceptionTypes) (written t.annotations) none) :=
    Fills.unlessEmpty (t.draft (written t.exceptionTypes) · none) rfl
      fun _ hlist => yields_map _ <| Annotation.list_form hlist
  have hdefault : Fills (σ := σ) reader
      (Form.ifPresent "default_value" AnnotationValue.form t.defaultValue)
      (t.draft (written t.exceptionTypes) (written t.annotations) none) t.filled :=
    Fills.ifPresent (t.draft (written t.exceptionTypes) (written t.annotations) ·) rfl
      fun _ _ _ hvalue => yields_map _ (yields_option hvalue (AnnotationValue.read_form hvalue))
  exact ((hhead.append hsignature).append hmarks).append hdefault

variable {κ : Type} {fieldOf : κ → m (Option String)} {pairs : List (κ × σ)}

/-- A token reads back from pairs that show its fields. -/
theorem fill_fields {t : MethodToken} (h : reader.ShowsFields fieldOf pairs t.fields) :
    Yields (reader.fill fieldOf [] pairs {}) t.filled :=
  yields_fill_of_sublist h t.map_fst_fields t.fills_fields

theorem readPairs_fields {t : MethodToken} (h : reader.ShowsFields fieldOf pairs t.fields) :
    Yields (reader.readPairs fieldOf pairs) t :=
  yields_readPairs (fill_fields h) t.finish_filled

end MethodToken

end Parts

namespace Method

/-- A map without a declaring type is not taken apart. -/
theorem splitPairs_of_forall_ne {pairs : List (Value × Value)}
    (h : ∀ e ∈ pairs, e.1 ≠ .str "declaring_type") (owner : Option TypeName) :
    splitPairs owner pairs = .ok (owner, pairs) := by
  induction pairs with
  | nil => rfl
  | cons e pairs ih =>
    have hkey := h e List.mem_cons_self
    rw [splitPairs, ih fun b hb => h b (List.mem_cons_of_mem _ hb)]
    · rfl
    · exact hkey

/-- No field of a token is named like the declaring type. -/
theorem ne_declaringType_of_mem_fields {t : MethodToken} {e : String × Form} (h : e ∈ t.fields) :
    e.1 ≠ "declaring_type" := by
  have hdeclared : e.1 ∈ RecordKind.token.fields := t.map_fst_fields.subset (List.mem_map_of_mem h)
  rintro heq
  rw [heq] at hdeclared
  exact absurd hdeclared (by decide)

theorem ofValue_form (m : Method) : ofValue m.form.value = .ok m := by
  have hsplit : splitPairs (some m.declaringType)
      (m.token.fields.map fun e => (.str e.1, e.2.value)) = .ok (some m.declaringType, _) :=
    splitPairs_of_forall_ne (fun e he => by
      obtain ⟨e', he', rfl⟩ := List.mem_map.mp he
      exact fun heq => ne_declaringType_of_mem_fields he' (Value.str.inj heq)) _
  have hshow : MethodToken.reader.ShowsFields (Value.fieldOf .token)
      (m.token.fields.map fun e => (.str e.1, e.2.value)) m.token.fields :=
    List.forall₂_map_left_iff.mpr (List.forall₂_same.mpr fun _ _ => ⟨rfl, rfl⟩)
  have htoken : MethodToken.reader.readPairs (Value.fieldOf .token) _ = .ok m.token :=
    MethodToken.readPairs_fields hshow
  rw [form, Form.value_record, List.map_cons, ofValue]
  -- the declaring type is written first, so the first step of the split takes it
  change (splitPairs (some m.declaringType) _ >>= _) = _
  exact bind_of_ok hsplit (bind_of_ok htoken rfl)

end Method

/-! ## Numbers -/

mutual

theorem AnnotationValue.exact_form : ∀ v : AnnotationValue, v.form.toJson.Exact
  | .boolean _ => trivial
  | .integer n => by
    have hlow := n.le_toInt
    have hhigh := n.toInt_lt
    exact ⟨by omega, by omega⟩
  | .text _ => trivial
  | .array values => exact_forms values

theorem AnnotationValue.exact_forms : ∀ vs : List AnnotationValue,
    Json.ExactItems (Form.toJsons (AnnotationValue.forms vs))
  | [] => trivial
  | v :: vs => ⟨exact_form v, exact_forms vs⟩

end

theorem Annotation.exact_form (a : Annotation) : a.form.toJson.Exact := by
  refine Form.exact_record (List.forall_mem_cons.mpr ⟨trivial, ?_⟩)
  split_ifs with hempty
  · exact fun _ he => absurd he List.not_mem_nil
  · refine List.forall_mem_singleton.mpr (Form.exact_record fun e he => ?_)
    obtain ⟨e', -, rfl⟩ := List.mem_map.mp he
    exact e'.2.exact_form

theorem Parameter.exact_form (p : Parameter) : p.form.toJson.Exact :=
  Form.exact_record (List.forall_mem_append.mpr
    ⟨List.forall_mem_cons.mpr ⟨trivial, Form.exact_ifPresent fun _ => trivial⟩,
      List.forall_mem_cons.mpr ⟨trivial, Form.exact_unlessEmpty fun a _ => a.exact_form⟩⟩)

theorem TypeVariable.exact_form (v : TypeVariable) : v.form.toJson.Exact :=
  ⟨trivial, Form.exact_list fun _ _ => trivial, trivial⟩

theorem MethodToken.exact_fields (t : MethodToken) : ∀ e ∈ t.fields, e.2.toJson.Exact := by
  have hvariables : ∀ e ∈ Form.unlessEmpty "type_variables" TypeVariable.form t.typeVariables,
      e.2.toJson.Exact := Form.exact_unlessEmpty fun v _ => v.exact_form
  have hparameters : (Form.list (t.parameters.map Parameter.form)).toJson.Exact :=
    Form.exact_list fun p _ => p.exact_form
  have hexceptions : ∀ e ∈ Form.unlessEmpty "exception_types" TypeName.form t.exceptionTypes,
      e.2.toJson.Exact := Form.exact_unlessEmpty fun _ _ => trivial
  have hannotations : ∀ e ∈ Form.unlessEmpty "annotations" Annotation.form t.annotations,
      e.2.toJson.Exact := Form.exact_unlessEmpty fun a _ => a.exact_form
  have hdefault : ∀ e ∈ Form.ifPresent "default_value" AnnotationValue.form t.defaultValue,
      e.2.toJson.Exact := Form.exact_ifPresent AnnotationValue.exact_form
  simp only [fields, List.forall_mem_append, List.forall_mem_cons]
  exact ⟨⟨⟨⟨trivial, trivial, hvariables⟩, trivial, hparameters, hexceptions⟩, hannotations⟩, hdefault⟩

theorem Method.exact_form (m : Method) : m.form.toJson.Exact :=
  Form.exact_record (List.forall_mem_cons.mpr ⟨trivial, m.token.exact_fields⟩)

/-- A method that is written in JSON reads back as itself, in either layout, if its arrays and
objects nest no deeper than a reader goes. -/
theorem Method.readJson_render (m : Method) (pretty : Bool)
    (h : m.form.toJson.nesting ≤ Json.maxDepth) :
    Method.readJson (OutputFormat.json.render pretty m.form) = .ok m := by
  have htext : Json.read (OutputFormat.json.render pretty m.form) = some m.form.toJson :=
    Json.read_write _ m.exact_form h
  have hvalue : Method.ofValue m.form.toJson.toValue = .ok m := m.ofValue_form
  rw [Method.readJson, htext]
  change (Method.ofValue m.form.toJson.toValue).mapError _ = _
  rw [hvalue]
  rfl

/-- A method with a bit that has no name, and with arrays in its default value. -/
theorem Method.readJson_render_of_unnamed_bit :
    let m : Method := ⟨⟨"p.Type"⟩, {
      name := "value"
      modifiers := .ofNat 0x2401
      returnType := ⟨"int[]"⟩
      defaultValue := some (.array [.integer (-1), .array [.text "0x1", .boolean true]]) }⟩
    m.form.toJson.nesting ≤ Json.maxDepth ∧
      Method.readJson (OutputFormat.json.render true m.form) = .ok m ∧
      Method.readJson (OutputFormat.json.render false m.form) = .ok m := by
  intro m
  have hdepth : m.form.toJson.nesting ≤ Json.maxDepth := by decide
  exact ⟨hdepth, m.readJson_render true hdepth, m.readJson_render false hdepth⟩

end Redeclare
