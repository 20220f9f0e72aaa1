import Redeclare.Proofs.Json.Parts
import Redeclare.Proofs.Method.RoundTrip
import Redeclare.Proofs.Reading.Run
import Redeclare.Reading.Json

/-!
# Constants of annotations in JSON

Which JSON values are constants, and which constant each of them is.  A reader
tries one kind after the other, but the value alone decides: no value is taken
for a constant of another kind than its own.

* `AnnotationValue.IsShownBy` relates a constant to the value of its shape, kind
  by kind.  Reading (`ofValue?_eq_some_iff`) and writing (`isShownBy_iff_toJson`)
  are both this relation.
* `Json.IsConstant` are the values that some constant shows as, and
  `Json.NoConstant` the parts that keep a value from being one.
* `read_and_write_by_kind` puts them together.
-/

namespace Redeclare

/-- Booleans, integers of 64 bits with sign, texts, and lists of such values. -/
inductive Json.IsConstant : Json → Prop where
  | bool (b : Bool) : IsConstant (.bool b)
  | int {n : Int} (hlow : -0x8000000000000000 ≤ n) (hhigh : n < 0x8000000000000000) :
      IsConstant (.int n)
  | str (s : String) : IsConstant (.str s)
  | arr {items : List Json} (hitems : ∀ item ∈ items, IsConstant item) : IsConstant (.arr items)

/-- What may stand nowhere in a constant. -/
inductive Json.NoConstant : Json → Prop where
  | null : NoConstant .null
  | float (x : Text.Binary64) : NoConstant (.float x)
  | obj (members : List (String × Json)) : NoConstant (.obj members)
  | int {n : Int} (h : n < -0x8000000000000000 ∨ 0x8000000000000000 ≤ n) : NoConstant (.int n)

namespace Json

theorem IsConstant.not_noConstant {v : Json} (h : v.IsConstant) : ¬ v.NoConstant := by
  rintro (_ | _ | _ | hout)
  · exact nomatch h
  · exact nomatch h
  · exact nomatch h
  · cases h with
    | int hlow hhigh => omega

theorem IsConstant.of_part {v w : Json} (h : v.IsConstant) (hpart : v.Part w) : w.IsConstant := by
  induction hpart with
  | here => exact h
  | item hitem _ ih =>
    cases h with
    | arr hitems => exact ih (hitems _ hitem)
  | member => exact nomatch h

theorem isConstant_of_forall_part {v : Json} (h : ∀ w, v.Part w → ¬ w.NoConstant) : v.IsConstant := by
  induction v using induct with
  | arr items ih => exact .arr fun item hitem => ih item hitem fun w hw => h w (.item hitem hw)
  | obj members ih => exact absurd (.obj members) (h _ .here)
  | scalar v harr hobj =>
    have hself := h v .here
    cases v with
    | null => exact absurd .null hself
    | bool b => exact .bool b
    | int n =>
      have hrange : ¬ (n < -0x8000000000000000 ∨ 0x8000000000000000 ≤ n) := fun hout => hself (.int hout)
      exact .int (by omega) (by omega)
    | float x => exact absurd (.float x) hself
    | str s => exact .str s
    | arr items => exact absurd rfl (harr items)
    | obj members => exact absurd rfl (hobj members)

/-- A value is a constant unless something that may stand in none is a part of it. -/
theorem not_isConstant_iff {v : Json} : ¬ v.IsConstant ↔ ∃ w, v.Part w ∧ w.NoConstant := by
  constructor
  · intro h
    by_contra hparts
    exact h (isConstant_of_forall_part fun w hw hno => hparts ⟨w, hw, hno⟩)
  · rintro ⟨w, hpart, hno⟩ h
    exact (h.of_part hpart).not_noConstant hno

end Json

namespace AnnotationValue

/-- A value has the kind and the content of a constant. -/
inductive IsShownBy : AnnotationValue → Json → Prop where
  | boolean (b : Bool) : IsShownBy (.boolean b) (.bool b)
  | integer (n : Int64) : IsShownBy (.integer n) (.int n.toInt)
  | text (s : String) : IsShownBy (.text s) (.str s)
  | array {values : List AnnotationValue} {items : List Json}
      (hitems : List.Forall₂ IsShownBy values items) : IsShownBy (.array values) (.arr items)

/-! ## Reading and writing -/

theorem int64?_eq_some_iff {n : Int} {m : Int64} : int64? n = some m ↔ n = m.toInt := by
  constructor
  · intro h
    unfold int64? at h
    split_ifs at h with hrange
    rw [← Option.some.inj h, Int64.toInt_ofInt_of_le (by omega) (by omega)]
  · rintro rfl
    exact int64?_toInt m

mutual

theorem ofValue?_eq_some_iff : ∀ {v : Json} {a : AnnotationValue},
    ofValue? v.toValue = some a ↔ a.IsShownBy v
  | .bool b, a => by
    rw [Json.toValue, ofValue?, Option.some.injEq]
    constructor
    · rintro rfl
      exact .boolean b
    · rintro ⟨⟩
      rfl
  | .int n, a => by
    rw [Json.toValue, ofValue?, Option.map_eq_some_iff]
    constructor
    · rintro ⟨m, hm, rfl⟩
      rw [int64?_eq_some_iff.mp hm]
      exact .integer m
    · rintro ⟨⟩
      exact ⟨_, int64?_toInt _, rfl⟩
  | .str s, a => by
    rw [Json.toValue, ofValue?, Option.some.injEq]
    constructor
    · rintro rfl
      exact .text s
    · rintro ⟨⟩
      rfl
  | .arr items, a => by
    rw [Json.toValue, ofValue?, Option.map_eq_some_iff]
    constructor
    · rintro ⟨values, hvalues, rfl⟩
      exact .array (ofValues?_eq_some_iff.mp hvalues)
    · rintro (_ | _ | _ | hitems)
      exact ⟨_, ofValues?_eq_some_iff.mpr hitems, rfl⟩
  | .null, a | .float _, a | .obj _, a => ⟨nofun, nofun⟩

theorem ofValues?_eq_some_iff : ∀ {items : List Json} {values : List AnnotationValue},
    ofValues? (Json.toValues items) = some values ↔ List.Forall₂ IsShownBy values items
  | [], values => by
    rw [Json.toValues, ofValues?, Option.some.injEq, List.forall₂_nil_right_iff, eq_comm]
  | item :: items, values => by
    rw [Json.toValues, ofValues?, List.forall₂_cons_right_iff]
    constructor
    · intro h
      split at h
      · rename_i value rest hvalue hrest
        exact ⟨value, rest, ofValue?_eq_some_iff.mp hvalue, ofValues?_eq_some_iff.mp hrest,
          (Option.some.inj h).symm⟩
      · exact nomatch h
    · rintro ⟨value, rest, hvalue, hrest, rfl⟩
      rw [ofValue?_eq_some_iff.mpr hvalue, ofValues?_eq_some_iff.mpr hrest]

end

mutual

theorem IsShownBy.toJson_eq : ∀ {a : AnnotationValue} {v : Json}, a.IsShownBy v → a.form.toJson = v
  | .boolean _, _, .boolean _ => rfl
  | .integer _, _, .integer _ => rfl
  | .text _, _, .text _ => rfl
  | .array _, _, .array hitems => congrArg Json.arr (IsShownBy.toJsons_eq hitems)

theorem IsShownBy.toJsons_eq : ∀ {values : List AnnotationValue} {items : List Json},
    List.Forall₂ IsShownBy values items → Form.toJsons (forms values) = items
  | [], _, .nil => rfl
  | _ :: _, _, .cons hvalue hrest => congrArg₂ List.cons hvalue.toJson_eq (IsShownBy.toJsons_eq hrest)

end

/-- A constant is written as the value that shows it, and as no other one. -/
theorem isShownBy_iff_toJson {a : AnnotationValue} {v : Json} : a.IsShownBy v ↔ a.form.toJson = v := by
  constructor
  · exact IsShownBy.toJson_eq
  · rintro rfl
    exact ofValue?_eq_some_iff.mp (ofValue?_form a)

theorem read_eq_match (v : Json) : AnnotationValue.read v = match ofValue? v.toValue with
    | some a => .ok a
    | none => .error .noAnnotationValue := rfl

theorem read_eq_ok_iff {v : Json} {a : AnnotationValue} :
    AnnotationValue.read v = .ok a ↔ a.IsShownBy v := by
  rw [← ofValue?_eq_some_iff, read_eq_match]
  cases ofValue? v.toValue <;> simp

theorem read_eq_error_iff {v : Json} {fault : Fault} : AnnotationValue.read v = .error fault ↔
    fault = .noAnnotationValue ∧ ∀ a : AnnotationValue, ¬ a.IsShownBy v := by
  simp only [← ofValue?_eq_some_iff, read_eq_match]
  cases ofValue? v.toValue <;> simp [eq_comm]

/-! ## Values that are constants -/

theorem isConstant_iff {v : Json} : v.IsConstant ↔ ∃ a : AnnotationValue, a.IsShownBy v := by
  constructor
  · intro h
    induction h with
    | bool b => exact ⟨_, .boolean b⟩
    | @int n hlow hhigh =>
      obtain ⟨m, rfl⟩ : ∃ m : Int64, n = m.toInt :=
        ⟨.ofInt n, (Int64.toInt_ofInt_of_le (by omega) (by omega)).symm⟩
      exact ⟨_, .integer m⟩
    | str s => exact ⟨_, .text s⟩
    | arr _ ih =>
      obtain ⟨values, hvalues⟩ := exists_forall₂_of_forall_exists ih
      exact ⟨_, .array hvalues.flip⟩
  · rintro ⟨a, h⟩
    induction v using Json.induct generalizing a with
    | arr items ih =>
      cases h with
      | array hitems =>
        refine .arr fun item hitem => ?_
        obtain ⟨value, -, hvalue⟩ := exists_mem_of_forall₂_right hitems hitem
        exact ih item hitem value hvalue
    | obj members ih => exact nomatch h
    | scalar v harr hobj =>
      cases h with
      | boolean b => exact .bool b
      | integer n => exact .int n.le_toInt n.toInt_lt
      | text s => exact .str s
      | array hitems => exact absurd rfl (harr _)

/-- A value is read as the constant of its own kind, and only a constant is read; this is written as
the value again, and what is written is read as itself.  Anything that stands in no constant makes the
whole value be refused, at any depth. -/
theorem read_and_write_by_kind (v : Json) :
    ((∃ a, AnnotationValue.read v = .ok a) ↔ v.IsConstant) ∧
      (∀ a, AnnotationValue.read v = .ok a ↔ a.IsShownBy v) ∧
      (∀ a : AnnotationValue, AnnotationValue.read v = .ok a ↔ a.form.toJson = v) ∧
      ∀ fault, AnnotationValue.read v = .error fault ↔
        fault = .noAnnotationValue ∧ ∃ w, v.Part w ∧ w.NoConstant := by
  refine ⟨?_, fun a => read_eq_ok_iff, fun a => read_eq_ok_iff.trans isShownBy_iff_toJson, fun fault => ?_⟩
  · simp only [read_eq_ok_iff, isConstant_iff]
  · rw [← Json.not_isConstant_iff, isConstant_iff, not_exists, read_eq_error_iff, and_congr_right_iff]
    intro _
    rfl

end AnnotationValue

end Redeclare
