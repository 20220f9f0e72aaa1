import Mathlib.Tactic.SplitIfs
import Redeclare.Method.Form
import Redeclare.Proofs.Json.RoundTrip
import Redeclare.Proofs.Reading.Record

/-!
# Written forms as they are read

What a reader sees of a written form, and how a record reads back from its
fields when some of them were left out.

* `Form.value` is a form as the value that a reader of its JSON sees.
* `FormSource` is what it takes of a source that written forms read back from
  it: one law for each way to read a part.  Buffered values are such a source.
* `RecordReader.Fills` is what fields do to a draft; it has one law for each way
  in which a field is written, and `yields_record_of_fills` reads a record whose
  fields fill its draft.
* The last section says that no number is rounded on the way, part by part.
-/

namespace Redeclare

/-! ## Forms as values -/

namespace Form

theorem toJsons_eq_map (items : List Form) : toJsons items = items.map toJson := by
  induction items with
  | nil => rfl
  | cons item items ih => rw [toJsons, ih, List.map_cons]

theorem toMembers_eq_map (fields : List (String × Form)) :
    toMembers fields = fields.map fun e => (e.1, e.2.toJson) := by
  induction fields with
  | nil => rfl
  | cons e fields ih => rw [toMembers, ih, List.map_cons]

end Form

namespace Json

theorem toValues_eq_map (items : List Json) : toValues items = items.map toValue := by
  induction items with
  | nil => rfl
  | cons item items ih => rw [toValues, ih, List.map_cons]

theorem toPairs_eq_map (members : List (String × Json)) :
    toPairs members = members.map fun e => (.str e.1, e.2.toValue) := by
  induction members with
  | nil => rfl
  | cons e members ih => rw [toPairs, ih, List.map_cons]

end Json

theorem bind_of_ok {ε α β : Type} {x : Except ε α} {a : α} {f : α → Except ε β} {b : β}
    (h : x = .ok a) (hf : f a = .ok b) : x >>= f = .ok b := by
  rw [h]
  exact hf

theorem Value.option_of_ne_null {α : Type} {read : Value → Except Fault α} {v : Value}
    (h : v ≠ .null) : Source.option read v = (read v).map some := by
  cases v with
  | null => exact absurd rfl h
  | _ => rfl

namespace Form

/-- A form as the value that a reader of its JSON sees. -/
def value (f : Form) : Value := f.toJson.toValue

@[simp] theorem value_int (n : Int) : (int n).value = .int n := rfl

@[simp] theorem value_list (items : List Form) : (list items).value = .seq (items.map value) := by
  rw [value, toJson, Json.toValue, toJsons_eq_map, Json.toValues_eq_map, List.map_map]
  rfl

@[simp] theorem value_record (fields : List (String × Form)) :
    (record fields).value = .map (fields.map fun e => (.str e.1, e.2.value)) := by
  rw [value, toJson, Json.toValue, toMembers_eq_map, Json.toPairs_eq_map, List.map_map]
  rfl

theorem value_ne_null (f : Form) : f.value ≠ .null := by
  cases f <;> exact Value.noConfusion

end Form

/-! ## Sources that show forms -/

/-- Monads in which a reading can go through: `Yields read a` says that it does, and that its result
is `a`. -/
class YieldMonad (m : Type → Type) [FaultMonad m] where
  Yields : {α : Type} → m α → α → Prop
  yields_pure {α : Type} (a : α) : Yields (pure a) a
  yields_bind {α β : Type} {read : m α} {a : α} {next : α → m β} {b : β} :
    Yields read a → Yields (next a) b → Yields (read >>= next) b

export YieldMonad (Yields yields_pure yields_bind)

/-- Sources in which written forms stand: `Shows x form` says that the part `x` is the form.  The other
fields say what each way to read a part makes of the form that stands there. -/
class FormSource (σ : Type) (m : outParam (Type → Type)) [FaultMonad m] [YieldMonad m] [Source σ m]
    where
  Shows : σ → Form → Prop
  yields_text {α : Type} {expected : Expected} {parse : String → Except Fault α} {x : σ} {s : String}
    {a : α} : Shows x (.text s) → parse s = .ok a → Yields (Source.text expected parse x) a
  yields_option {α : Type} {read : σ → m α} {x : σ} {form : Form} {a : α} :
    Shows x form → Yields (read x) a → Yields (Source.option read x) (some a)
  yields_list {α : Type} {read : σ → m α} {x : σ} {forms : List Form} {as : List α} :
    Shows x (.list forms) →
    List.Forall₂ (fun form a => ∀ y, Shows y form → Yields (read y) a) forms as →
    Yields (Source.list read x) as
  yields_entries {α : Type} {read : σ → m α} {x : σ} {fields : List (String × Form)}
    {entries : List (String × α)} :
    Shows x (.record fields) →
    List.Forall₂ (fun e e' => e.1 = e'.1 ∧ ∀ y, Shows y e.2 → Yields (read y) e'.2) fields entries →
    Yields (Source.entries read x) entries
  /-- A record is read off pairs that show its fields. -/
  yields_record {δ α : Type} {r : RecordReader m σ δ α} {x : σ} {fields : List (String × Form)} {a : α} :
    Shows x (.record fields) →
    (∀ {κ : Type} (fieldOf : κ → m (Option String)) (pairs : List (κ × σ)),
      List.Forall₂ (fun pair e => Yields (fieldOf pair.1) (r.field? e.1) ∧ Shows pair.2 e.2)
        pairs fields → Yields (r.readPairs fieldOf pairs) a) →
    Yields (Source.record r x) a
  yields_buffer {x : σ} {form : Form} : Shows x form → Yields (Source.buffer x) form.value

export FormSource (Shows yields_text yields_option yields_list yields_entries yields_record yields_buffer)

section

variable {σ : Type} {m : Type → Type} [FaultMonad m] [YieldMonad m] [Source σ m] [FormSource σ m]

/-- What is read can be put in its place. -/
theorem yields_map {α β : Type} {read : m α} {a : α} (f : α → β) (h : Yields read a) :
    Yields (read >>= fun a => pure (f a)) (f a) :=
  yields_bind h (yields_pure (f a))

/-- A list reads back if each of its items does. -/
theorem yields_list_map {α : Type} {read : σ → m α} {form : α → Form} {x : σ} {as : List α}
    (h : Shows x (.list (as.map form))) (hread : ∀ a ∈ as, ∀ y, Shows y (form a) → Yields (read y) a) :
    Yields (Source.list read x) as :=
  yields_list h (List.forall₂_map_left_iff.mpr (List.forall₂_same.mpr hread))

end

/-! ## Records -/

theorem RecordKind.nodup_fields (kind : RecordKind) : kind.fields.Nodup := by
  cases kind <;> decide

namespace RecordReader

/-- A list as a draft has it: it was left out if it is empty. -/
def written {β : Type} (xs : List β) : Option (List β) :=
  if xs.isEmpty then none else some xs

theorem getD_written {β : Type} (xs : List β) : (written xs).getD [] = xs := by
  cases xs <;> rfl

theorem getD_map_some {β : Type} (x : Option β) : (x.map some).getD none = x := by
  cases x <;> rfl

section Filling

variable {σ δ α κ : Type} {m : Type → Type} [FaultMonad m] [YieldMonad m] {r : RecordReader m σ δ α}
  {fieldOf : κ → m (Option String)} {pairs : List (κ × σ)} {d d' : δ}

/-- A pair whose key names no field is passed over. -/
theorem yields_fill_cons_of_unknown {key : κ} {x : σ} {seen : List String}
    (hkey : Yields (fieldOf key) none) (h : Yields (r.fill fieldOf seen pairs d) d') :
    Yields (r.fill fieldOf seen ((key, x) :: pairs) d) d' := by
  rw [fill]
  exact yields_bind hkey h

theorem yields_readPairs {a : α} (h : Yields (r.fill fieldOf [] pairs r.draft) d)
    (hfinish : r.finish d = .ok a) : Yields (r.readPairs fieldOf pairs) a := by
  refine yields_bind h ?_
  rw [hfinish]
  exact yields_pure a

end Filling

section Fills

variable {σ δ α : Type} {m : Type → Type} [FaultMonad m] [YieldMonad m] [Source σ m] [FormSource σ m]

/-- Written fields fill a draft up to another one, wherever they stand. -/
inductive Fills (r : RecordReader m σ δ α) : List (String × Form) → δ → δ → Prop where
  | nil {d : δ} : Fills r [] d d
  | cons {key : String} {form : Form} {fields : List (String × Form)} {d d' d'' : δ}
      (head : ∀ x, Shows x form → Yields (r.put key x d) d') (tail : Fills r fields d' d'') :
      Fills r ((key, form) :: fields) d d''

variable {r : RecordReader m σ δ α} {d d' d'' : δ}

theorem Fills.append {fields rest : List (String × Form)} (h : r.Fills fields d d')
    (hrest : r.Fills rest d' d'') : r.Fills (fields ++ rest) d d'' := by
  induction h with
  | nil => exact hrest
  | cons head _ ih => exact .cons head (ih hrest)

/-- A list that is left out when it is empty is not there in the draft then. -/
theorem Fills.unlessEmpty {β : Type} {key : String} {form : β → Form} {xs : List β}
    (set : Option (List β) → δ) (hnone : set none = d)
    (h : ∀ x, Shows x (.list (xs.map form)) → Yields (r.put key x d) (set (some xs))) :
    r.Fills (Form.unlessEmpty key form xs) d (set (written xs)) := by
  rw [Form.unlessEmpty, written]
  split_ifs with hempty
  · exact hnone ▸ .nil
  · exact .cons h .nil

theorem Fills.ifPresent {β : Type} {key : String} {form : β → Form} {x : Option β}
    (set : Option (Option β) → δ) (hnone : set none = d)
    (h : ∀ b, x = some b → ∀ y, Shows y (form b) → Yields (r.put key y d) (set (some (some b)))) :
    r.Fills (Form.ifPresent key form x) d (set (x.map some)) := by
  cases x with
  | none => exact hnone ▸ .nil
  | some b => exact .cons (h b rfl) .nil

/-- The pairs of a map show fields: each key names its field, and each value is its form. -/
def ShowsFields {κ : Type} (r : RecordReader m σ δ α) (fieldOf : κ → m (Option String))
    (pairs : List (κ × σ)) (fields : List (String × Form)) : Prop :=
  List.Forall₂ (fun pair e => Yields (fieldOf pair.1) (r.field? e.1) ∧ Shows pair.2 e.2)
    pairs fields

/-- Distinct fields are put one after the other; nothing is passed over and nothing is refused. -/
theorem yields_fill {κ : Type} {fieldOf : κ → m (Option String)} {pairs : List (κ × σ)}
    {fields : List (String × Form)} {seen : List String} (hshow : r.ShowsFields fieldOf pairs fields)
    (hfields : ∀ e ∈ fields, e.1 ∈ r.kind.fields) (hdistinct : (fields.map Prod.fst).Nodup)
    (hseen : ∀ e ∈ fields, e.1 ∉ seen) (hfill : r.Fills fields d d') :
    Yields (r.fill fieldOf seen pairs d) d' := by
  induction hfill generalizing seen pairs with
  | nil =>
    rw [List.forall₂_nil_right_iff.mp hshow]
    exact yields_pure _
  | @cons key form fields d d' d'' hput _ ih =>
    obtain ⟨⟨name, x⟩, rest, ⟨hname, hx⟩, hrest, rfl⟩ := List.forall₂_cons_right_iff.mp hshow
    obtain ⟨hfresh, hdistinct⟩ := List.nodup_cons.mp hdistinct
    have hfield : r.field? key = some key := if_pos (hfields _ List.mem_cons_self)
    have hlater : ∀ e ∈ fields, e.1 ∉ key :: seen := by
      intro e he
      rw [List.mem_cons, not_or]
      have hname : e.1 ∈ fields.map Prod.fst := List.mem_map_of_mem he
      exact ⟨fun heq => hfresh (heq ▸ hname), hseen e (List.mem_cons_of_mem _ he)⟩
    have hnext := ih hrest (fun e he => hfields e (List.mem_cons_of_mem _ he)) hdistinct hlater
    rw [fill]
    refine yields_bind hname ?_
    rw [hfield]
    dsimp only
    rw [if_neg (hseen _ List.mem_cons_self)]
    exact yields_bind (hput x hx) hnext

/-- The fields of a record that stand in the order of their declaration. -/
theorem yields_fill_of_sublist {κ : Type} {fieldOf : κ → m (Option String)} {pairs : List (κ × σ)}
    {fields : List (String × Form)} (hshow : r.ShowsFields fieldOf pairs fields)
    (hfields : (fields.map Prod.fst).Sublist r.kind.fields) (hfill : r.Fills fields d d') :
    Yields (r.fill fieldOf [] pairs d) d' :=
  yields_fill hshow (fun _ he => hfields.subset (List.mem_map_of_mem he))
    (hfields.nodup r.kind.nodup_fields) (fun _ _ => List.not_mem_nil) hfill

/-- A record reads back from fields that fill its draft. -/
theorem yields_record_of_fills {x : σ} {fields : List (String × Form)} {a : α}
    (h : Shows x (.record fields)) (hfields : (fields.map Prod.fst).Sublist r.kind.fields)
    (hfill : r.Fills fields r.draft d) (hfinish : r.finish d = .ok a) :
    Yields (Source.record r x) a :=
  yields_record h fun _ _ hshow =>
    yields_readPairs (yields_fill_of_sublist hshow hfields hfill) hfinish

end Fills

theorem map_fst_unlessEmpty_sublist {β : Type} (key : String) (form : β → Form) (xs : List β) :
    ((Form.unlessEmpty key form xs).map Prod.fst).Sublist [key] := by
  cases xs with
  | nil => exact List.nil_sublist _
  | cons x xs => exact List.Sublist.refl _

theorem map_fst_ifPresent_sublist {β : Type} (key : String) (form : β → Form) (x : Option β) :
    ((Form.ifPresent key form x).map Prod.fst).Sublist [key] := by
  cases x with
  | none => exact List.nil_sublist _
  | some a => exact List.Sublist.refl _

end RecordReader

/-! ## Buffered values -/

instance : YieldMonad (Except Fault) where
  Yields read a := read = .ok a
  yields_pure _ := rfl
  yields_bind := bind_of_ok

/-- A buffered value shows a form if it is what the form is in JSON. -/
instance : FormSource Value (Except Fault) where
  Shows v form := v = form.value
  yields_text h hparse := by
    rw [h]
    exact hparse
  yields_option h hread := by
    rw [Value.option_of_ne_null (h ▸ Form.value_ne_null _), hread]
    rfl
  yields_list h hitems := by
    rw [h, Form.value_list]
    refine Value.readItems_of_forall₂ (List.forall₂_map_left_iff.mpr (hitems.imp ?_))
    exact fun _ _ hread => hread _ rfl
  yields_entries h hentries := by
    rw [h, Form.value_record]
    refine Value.readEntries_of_forall₂ (List.forall₂_map_left_iff.mpr (hentries.imp ?_))
    exact fun e e' ⟨hkey, hread⟩ => ⟨congrArg Value.str hkey, hread _ rfl⟩
  yields_record h hread := by
    rw [h, Form.value_record]
    refine hread _ _ (List.forall₂_map_left_iff.mpr (List.forall₂_same.mpr ?_))
    exact fun _ _ => ⟨rfl, rfl⟩
  yields_buffer h := congrArg Except.ok h

/-! ## Numbers of a form -/

namespace Json

theorem exactItems_of_forall {items : List Json} (h : ∀ item ∈ items, item.Exact) :
    ExactItems items := by
  induction items with
  | nil => trivial
  | cons item items ih =>
    exact ⟨h item List.mem_cons_self, ih fun b hb => h b (List.mem_cons_of_mem _ hb)⟩

theorem exactMembers_of_forall {members : List (String × Json)} (h : ∀ e ∈ members, e.2.Exact) :
    ExactMembers members := by
  induction members with
  | nil => trivial
  | cons e members ih =>
    exact ⟨h e List.mem_cons_self, ih fun b hb => h b (List.mem_cons_of_mem _ hb)⟩

end Json

namespace Form

variable {α : Type} {form : α → Form}

theorem exact_list {xs : List α} (h : ∀ a ∈ xs, (form a).toJson.Exact) :
    (list (xs.map form)).toJson.Exact := by
  rw [toJson, toJsons_eq_map, List.map_map]
  refine Json.exactItems_of_forall fun item hitem => ?_
  obtain ⟨a, ha, rfl⟩ := List.mem_map.mp hitem
  exact h a ha

theorem exact_record {fields : List (String × Form)} (h : ∀ e ∈ fields, e.2.toJson.Exact) :
    (record fields).toJson.Exact := by
  rw [toJson, toMembers_eq_map]
  refine Json.exactMembers_of_forall fun e he => ?_
  obtain ⟨e', he', rfl⟩ := List.mem_map.mp he
  exact h e' he'

theorem exact_unlessEmpty {key : String} {xs : List α} (h : ∀ a ∈ xs, (form a).toJson.Exact) :
    ∀ e ∈ unlessEmpty key form xs, e.2.toJson.Exact := by
  intro e he
  rw [unlessEmpty] at he
  split_ifs at he with hempty
  · exact absurd he List.not_mem_nil
  · rw [List.mem_singleton.mp he]
    exact exact_list h

theorem exact_ifPresent {key : String} {x : Option α} (h : ∀ a, (form a).toJson.Exact) :
    ∀ e ∈ ifPresent key form x, e.2.toJson.Exact := by
  cases x with
  | none => exact fun _ he => absurd he List.not_mem_nil
  | some a =>
    intro e he
    rw [List.mem_singleton.mp he]
    exact h a

end Form

end Redeclare
