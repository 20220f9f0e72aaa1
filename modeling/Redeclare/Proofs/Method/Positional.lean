import Redeclare.Proofs.Reading.Form
import Redeclare.Proofs.Reading.Variant
import Redeclare.Reading.Json

/-!
# Records as lists of their fields

A record may be written as the list of its fields, in the order of their
declaration, instead of as an object.  Both forms are read as the same, fields
at the end may be left out of either, and records within a record may be in
either form too.

* `RecordReader.fill_zip` compares the two ways to fill a draft, field by field, and
  `readRecord_arr_eq_ok_iff` the records that come of it.
* `Json.keyed` puts all records of a value into the keyed form.  `ReadsKeyed` says
  that a reader makes no difference between a value and its keyed form; there is
  a lemma for lists of records and one for records, `PutsKeyed.readRecord`.
* `MethodToken.records_read_in_either_form` is the result for the four records that
  a method is made of.
-/

namespace Redeclare

open Json

/-! ## Two ways to fill a draft -/

namespace RecordReader

variable {δ α : Type} {r : RecordReader (Except Fault) Json δ α}

/-- Items fill a draft as the members do that have them under the names of the fields: the first
fault is the same as well. -/
theorem fill_zip {fields : List String} (hdistinct : fields.Nodup) (hknown : fields ⊆ r.kind.fields)
    {seen : List String} (hfresh : ∀ field ∈ fields, field ∉ seen) (items : List Json) (d : δ) :
    r.fill (fun key => .ok (r.field? key)) seen (fields.zip items) d = r.fillInOrder fields items d := by
  induction fields generalizing seen items d with
  | nil => rfl
  | cons field fields ih =>
    cases items with
    | nil => rfl
    | cons item items =>
      obtain ⟨hnew, hdistinct⟩ := List.nodup_cons.mp hdistinct
      obtain ⟨hmem, hknown⟩ := List.cons_subset.mp hknown
      have hfield : r.field? field = some field := if_pos hmem
      have hunseen : field ∉ seen := hfresh field List.mem_cons_self
      have hrest : ∀ f ∈ fields, f ∉ field :: seen := by
        intro f hf hcons
        rcases List.mem_cons.mp hcons with rfl | hseen
        · exact hnew hf
        · exact hfresh f (List.mem_cons_of_mem _ hf) hseen
      rw [List.zip_cons_cons, fill, hfield, fillInOrder]
      change (if field ∈ seen then _ else _) = _
      rw [if_neg hunseen]
      exact bind_congr fun d => ih hdistinct hknown hrest items d

theorem readPairs_eq_ok_iff {members : List (String × Json)} {a : α} :
    r.readPairs (fun key => .ok (r.field? key)) members = .ok a ↔
      ∃ d, r.fill (fun key => .ok (r.field? key)) [] members r.draft = .ok d ∧ r.finish d = .ok a := by
  rw [readPairs, bind_eq_ok_iff]
  refine exists_congr fun d => and_congr_right fun _ => ?_
  cases r.finish d with
  | ok b => exact ⟨fun h => congrArg _ (Except.ok.inj h), fun h => congrArg _ (Except.ok.inj h)⟩
  | error field =>
    constructor
    · intro h
      cases h
    · intro h
      cases h

/-- A list of fields is read if its items fill a draft and it is not too long. -/
theorem readFields_eq_ok_iff {items : List Json} {a : α} :
    r.readFields items = .ok a ↔ items.length ≤ r.kind.fields.length ∧
      ∃ d, r.fillInOrder r.kind.fields items r.draft = .ok d ∧ r.finish d = .ok a := by
  rw [readFields, bind_eq_ok_iff, ← exists_and_left]
  refine exists_congr fun d => ?_
  rw [and_left_comm]
  refine and_congr_right fun _ => ?_
  cases r.finish d with
  | error field =>
    constructor
    · intro h
      cases h
    · rintro ⟨-, h⟩
      cases h
  | ok b =>
    dsimp only
    split_ifs with hlong
    · constructor
      · intro h
        cases h
      · intro h
        exact absurd hlong (Nat.not_lt.mpr h.1)
    · exact ⟨fun h => ⟨Nat.not_lt.mp hlong, congrArg _ (Except.ok.inj h)⟩,
        fun h => congrArg _ (Except.ok.inj h.2)⟩

/-- The list of fields is read as the object that has them under their names. -/
theorem readRecord_arr_eq_ok_iff {items : List Json} (h : items.length ≤ r.kind.fields.length) {a : α} :
    readRecord r (.arr items) = .ok a ↔ readRecord r (.obj (r.kind.fields.zip items)) = .ok a := by
  have hfill := fill_zip (r := r) r.kind.nodup_fields (List.Subset.refl _)
    (fun _ _ => List.not_mem_nil) items r.draft
  dsimp only [readRecord]
  rw [readFields_eq_ok_iff, readPairs_eq_ok_iff, hfill]
  exact and_iff_right h

/-- A list with more items than fields is refused. -/
theorem exists_readRecord_eq_error {items : List Json} (h : r.kind.fields.length < items.length) :
    ∃ fault, readRecord r (.arr items) = .error fault := by
  cases hread : readRecord r (.arr items) with
  | error fault => exact ⟨fault, rfl⟩
  | ok a => exact absurd (readFields_eq_ok_iff.mp hread).1 (Nat.not_le.mpr h)

end RecordReader

/-! ## The keyed form -/

namespace Json

mutual

/-- The value with the records in it as objects; `role` is what it is read as.  The list of a record's
fields becomes the object that has them in order, unless it is too long for that. -/
def keyed : Role → Json → Json
  | .record kind, .arr items =>
    if items.length ≤ kind.fields.length then .obj (keyedFields kind kind.fields items) else .arr items
  | .record kind, .obj members => .obj (keyedMembers kind members)
  | .records kind, .arr items => .arr (keyedItems kind items)
  | _, v => v

/-- The items of an array, each of them a record. -/
def keyedItems (kind : RecordKind) : List Json → List Json
  | [] => []
  | item :: items => item.keyed (.record kind) :: keyedItems kind items

/-- The members of a record. -/
def keyedMembers (kind : RecordKind) : List (String × Json) → List (String × Json)
  | [] => []
  | (key, v) :: members => (key, v.keyed (.ofField kind key)) :: keyedMembers kind members

/-- The members of a record that is the list of these fields. -/
def keyedFields (kind : RecordKind) : List String → List Json → List (String × Json)
  | field :: fields, item :: items =>
    (field, item.keyed (.ofField kind field)) :: keyedFields kind fields items
  | _, _ => []

end

theorem keyed_value (v : Json) : v.keyed .value = v := by
  unfold keyed
  rfl

theorem keyedFields_eq (kind : RecordKind) (fields : List String) (items : List Json) :
    keyedFields kind fields items = keyedMembers kind (fields.zip items) := by
  induction fields generalizing items with
  | nil => simp [keyedFields, keyedMembers]
  | cons field fields ih =>
    cases items with
    | nil => simp [keyedFields, keyedMembers]
    | cons item items => rw [keyedFields, List.zip_cons_cons, keyedMembers, ih]

/-- The two forms of a record have one keyed form. -/
theorem keyed_arr_eq {kind : RecordKind} {items : List Json} (h : items.length ≤ kind.fields.length) :
    (arr items).keyed (.record kind) = (obj (kind.fields.zip items)).keyed (.record kind) := by
  rw [keyed, if_pos h, keyed, keyedFields_eq]

/-- A reader makes no difference between a value and its keyed form; it may fail in different ways. -/
def ReadsKeyed {α : Type} (role : Role) (read : Json → Except Fault α) : Prop :=
  ∀ v, (read v).toOption = (read (v.keyed role)).toOption

namespace ReadsKeyed

variable {α β : Type} {role : Role} {read : Json → Except Fault α}

theorem toOption_readItems_of_forall₂ {items items' : List Json}
    (h : List.Forall₂ (fun v v' => (read v).toOption = (read v').toOption) items items') :
    (readItems read items).toOption = (readItems read items').toOption := by
  induction h with
  | nil => rfl
  | cons hhead _ ih =>
    rw [readItems, readItems, toOption_bind, toOption_bind, hhead]
    simp only [toOption_bind, ih]

theorem value : ReadsKeyed .value read := by
  intro v
  rw [keyed_value]

theorem bind (h : ReadsKeyed role read) (f : α → Except Fault β) :
    ReadsKeyed role fun v => read v >>= f := by
  intro v
  rw [toOption_bind, toOption_bind, h v]

theorem records {kind : RecordKind} (h : ReadsKeyed (.record kind) read) :
    ReadsKeyed (.records kind) (readArray read) := by
  intro v
  cases v with
  | arr items =>
    have hitems : List.Forall₂ (fun v v' => (read v).toOption = (read v').toOption) items
        (keyedItems kind items) := by
      induction items with
      | nil => rw [keyedItems]; exact .nil
      | cons item items ih => rw [keyedItems]; exact .cons (h item) ih
    rw [keyed]
    exact toOption_readItems_of_forall₂ hitems
  | _ => rfl

/-- Values with one keyed form are read as the same. -/
theorem eq_ok_iff (h : ReadsKeyed role read) {v v' : Json} (heq : v.keyed role = v'.keyed role) {a : α} :
    read v = .ok a ↔ read v' = .ok a :=
  ok_iff_of_toOption_eq ((h v).trans (heq ▸ (h v').symm)) a

end ReadsKeyed

end Json

/-! ## Records -/

namespace RecordReader

variable {δ α : Type} {r : RecordReader (Except Fault) Json δ α}

/-- What is put into the fields of a record is the same for the keyed form of their values. -/
def PutsKeyed (r : RecordReader (Except Fault) Json δ α) : Prop :=
  ∀ field d, ReadsKeyed (.ofField r.kind field) fun v => r.put field v d

theorem PutsKeyed.toOption_fill_eq (h : r.PutsKeyed) (seen : List String)
    (members : List (String × Json)) (d : δ) :
    (r.fill (fun key => .ok (r.field? key)) seen members d).toOption =
      (r.fill (fun key => .ok (r.field? key)) seen (keyedMembers r.kind members) d).toOption := by
  induction members generalizing seen d with
  | nil => rw [keyedMembers]
  | cons e members ih =>
    obtain ⟨key, v⟩ := e
    rw [keyedMembers, fill, fill]
    by_cases hkey : key ∈ r.kind.fields
    · have hfield : r.field? key = some key := if_pos hkey
      rw [hfield]
      change (if key ∈ seen then _ else _ : Except Fault δ).toOption =
        (if key ∈ seen then _ else _ : Except Fault δ).toOption
      split_ifs
      · rfl
      · rw [toOption_bind, toOption_bind, ← h key d v]
        exact Option.bind_congr fun d _ => ih (key :: seen) d
    · have hfield : r.field? key = none := if_neg hkey
      rw [hfield]
      exact ih seen d

/-- A record is read as its keyed form is, if its fields are. -/
theorem PutsKeyed.readRecord (h : r.PutsKeyed) :
    ReadsKeyed (.record r.kind) (Json.readRecord r) := by
  have hobj : ∀ members, (Json.readRecord r (.obj members)).toOption =
      (Json.readRecord r ((obj members).keyed (.record r.kind))).toOption := by
    intro members
    rw [keyed]
    dsimp only [Json.readRecord]
    rw [readPairs, readPairs, toOption_bind, toOption_bind, h.toOption_fill_eq]
  intro v
  cases v with
  | obj members => exact hobj members
  | arr items =>
    by_cases hlength : items.length ≤ r.kind.fields.length
    · refine toOption_eq_of_forall_ok_iff fun a => (readRecord_arr_eq_ok_iff hlength).trans ?_
      rw [keyed_arr_eq hlength]
      exact ok_iff_of_toOption_eq (hobj _) a
    · rw [keyed, if_neg hlength]
  | _ => rfl

/-- A record is read from the list of its fields as from the object that has them under their names,
whichever form the records within it are in, and not from a longer list. -/
structure ReadsEitherForm (r : RecordReader (Except Fault) Json δ α) : Prop where
  positional_iff_keyed : ∀ items : List Json, items.length ≤ r.kind.fields.length → ∀ a,
    Json.readRecord r (.arr items) = .ok a ↔
      Json.readRecord r (.obj (r.kind.fields.zip items)) = .ok a
  of_keyed_eq : ∀ v v' : Json, v.keyed (.record r.kind) = v'.keyed (.record r.kind) → ∀ a,
    Json.readRecord r v = .ok a ↔ Json.readRecord r v' = .ok a
  of_length_lt : ∀ items : List Json, r.kind.fields.length < items.length →
    ∃ fault, Json.readRecord r (.arr items) = .error fault

theorem PutsKeyed.readsEitherForm (h : r.PutsKeyed) : r.ReadsEitherForm where
  positional_iff_keyed _ hlength _ := readRecord_arr_eq_ok_iff hlength
  of_keyed_eq _ _ heq _ := h.readRecord.eq_ok_iff heq
  of_length_lt _ hlength := exists_readRecord_eq_error hlength

end RecordReader

/-! ## Parts of a token -/

open RecordReader

theorem TypeVariable.putsKeyed : PutsKeyed reader := by
  intro field d
  dsimp only [reader]
  split
  · exact ReadsKeyed.value.bind _
  · exact ReadsKeyed.value.bind _
  · exact fun _ => rfl

theorem Annotation.putsKeyed : PutsKeyed reader := by
  intro field d
  dsimp only [reader]
  split
  · exact ReadsKeyed.value.bind _
  · exact ReadsKeyed.value.bind _
  · exact fun _ => rfl

theorem Parameter.putsKeyed : PutsKeyed reader := by
  intro field d
  dsimp only [reader]
  split
  · exact ReadsKeyed.value.bind _
  · exact ReadsKeyed.value.bind _
  · exact ReadsKeyed.value.bind _
  · exact ReadsKeyed.bind Annotation.putsKeyed.readRecord.records _
  · exact fun _ => rfl

theorem MethodToken.putsKeyed : PutsKeyed reader := by
  intro field d
  dsimp only [reader]
  split
  · exact ReadsKeyed.value.bind _
  · exact ReadsKeyed.value.bind _
  · exact ReadsKeyed.bind TypeVariable.putsKeyed.readRecord.records _
  · exact ReadsKeyed.value.bind _
  · exact ReadsKeyed.bind Parameter.putsKeyed.readRecord.records _
  · exact ReadsKeyed.value.bind _
  · exact ReadsKeyed.bind Annotation.putsKeyed.readRecord.records _
  · exact ReadsKeyed.value.bind _
  · exact fun _ => rfl

/-- The records of a method are read from the list of their fields as from an object, at any depth, with
fields left out at the end or not; what is refused in one form is refused in the other. -/
theorem MethodToken.records_read_in_either_form :
    ReadsEitherForm TypeVariable.reader ∧ ReadsEitherForm Annotation.reader ∧
      ReadsEitherForm Parameter.reader ∧ ReadsEitherForm MethodToken.reader :=
  ⟨TypeVariable.putsKeyed.readsEitherForm, Annotation.putsKeyed.readsEitherForm,
    Parameter.putsKeyed.readsEitherForm, MethodToken.putsKeyed.readsEitherForm⟩

/-- An annotation in a list of a parameter's fields, in a list of a token's fields, and the same token in
objects; nine items are too many. -/
theorem MethodToken.records_read_in_either_form_of_nested :
    let mark := Json.arr [.str "p.Mark", .obj [("low", .int 1)]]
    let mark' := Json.obj [("type", .str "p.Mark"), ("values", .obj [("low", .int 1)])]
    let parameter := Json.arr [.str "int", .null, .str "FINAL", .arr [mark]]
    let parameter' := Json.obj [("type", .str "int"), ("name", .null), ("modifiers", .str "FINAL"),
      ("annotations", .arr [mark'])]
    let items := [.str "run", .str "", .arr [], .str "void", .arr [parameter]]
    let items' := [.str "run", .str "", .arr [], .str "void", .arr [parameter']]
    let members := RecordKind.token.fields.zip items
    let members' := RecordKind.token.fields.zip items'
    (items.length ≤ RecordKind.token.fields.length ∧
        (Json.obj members).keyed (.record .token) = (Json.obj members').keyed (.record .token)) ∧
      (∃ t, MethodToken.ofJson (.arr items) = .ok t ∧ MethodToken.ofJson (.obj members) = .ok t ∧
        MethodToken.ofJson (.obj members') = .ok t) ∧
      RecordKind.token.fields.length < (List.replicate 9 Json.null).length ∧
        ∃ fault, MethodToken.ofJson (.arr (List.replicate 9 .null)) = .error fault := by
  intro mark mark' parameter parameter' items items' members members'
  have hforms := MethodToken.records_read_in_either_form.2.2.2
  have hlength : items.length ≤ RecordKind.token.fields.length := by decide
  have hlong : RecordKind.token.fields.length < (List.replicate 9 Json.null).length := by decide
  have hkeyed : (Json.obj members).keyed (.record .token) = (Json.obj members').keyed (.record .token) := rfl
  have hsome : (MethodToken.ofJson (.arr items)).toOption.map (fun _ => ()) = some () := rfl
  obtain ⟨t, ht, -⟩ := exists_eq_ok_of_toOption_map hsome
  have hmembers : MethodToken.ofJson (.obj members) = .ok t :=
    (hforms.positional_iff_keyed items hlength t).mp ht
  have hmembers' : MethodToken.ofJson (.obj members') = .ok t :=
    (hforms.of_keyed_eq _ _ hkeyed t).mp hmembers
  exact ⟨⟨hlength, hkeyed⟩, ⟨t, ht, hmembers, hmembers'⟩, hlong, hforms.of_length_lt _ hlong⟩

end Redeclare
