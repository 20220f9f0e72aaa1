import Redeclare.Proofs.Json.Raw
import Redeclare.Proofs.Method.RoundTrip
import Redeclare.Proofs.Reading.Run
import Redeclare.Reading.JsonText

/-!
# JSON texts read directly and by way of buffered values

A method token is read off a text as it stands, and a method off the buffered
values of all members but its declaring type.  What stands under a key that is
no field is passed over by the one reader and buffered by the other, so it may
be too deep for the latter alone, or have no value.  Where all of a text can be
buffered, neither accepts anything that the other one refuses.

* `Spot.Agree` relates a reader of places in a text to one of buffered values.
  There is a lemma for each way to read a part of a document.
* `RecordReader.Matches` relates record readers in the same way, field by field;
  each reader of a part of a token has one proof of it, and
  `MethodToken.agree_ofSpot` is the last.
* `Method.splitPairs_insert` takes the declaring type out of the members
  wherever it stands, and `Method.readJson_insert_iff` compares the readers.
-/

namespace Redeclare

open Json

/-! ## Parts of a document -/

namespace Json.Spot

/-- The value at a place, if it can be buffered. -/
def value? (x : Spot) : Option Json :=
  x.raw.settle? x.depth

/-- A reader of places in a text and a reader of buffered values have the same result wherever there
is a value. -/
def Agree {α : Type} (read : Spot → Except TextFault α) (read' : Value → Except Fault α) : Prop :=
  ∀ x v, x.value? = some v → read x = (read' v.toValue).mapError .direct

variable {α : Type} {read : Spot → Except TextFault α} {read' : Value → Except Fault α}

theorem agree_readText (expected : Expected) (parse : String → Except Fault α) :
    Agree (readText expected parse) (Value.readText expected parse) := by
  intro ⟨depth, raw⟩ v h
  cases Raw.settled_of_settle? h <;> rfl

theorem agree_buffer : Agree buffer Source.buffer := by
  intro x v h
  have hv : x.raw.settle? x.depth = some v := h
  rw [buffer, hv]
  rfl

namespace Agree

/-- What is done with a result makes no difference. -/
theorem bind {β : Type} (h : Agree read read') {f : α → Except TextFault β}
    {f' : α → Except Fault β} (hf : ∀ a, f a = (f' a).mapError .direct) :
    Agree (fun x => read x >>= f) (fun v => read' v >>= f') := by
  intro x v hv
  dsimp only
  rw [h x v hv, mapError_bind]
  exact bind_congr hf

theorem option (h : Agree read read') : Agree (readOption read) (Source.option read') := by
  have hsome : ∀ x v, x.value? = some v → (read x).map some =
      ((read' v.toValue).map some).mapError .direct := by
    intro x v hv
    rw [h x v hv, mapError_map]
  intro ⟨depth, raw⟩ v hv
  have hread := hsome _ v hv
  cases Raw.settled_of_settle? hv with
  | null => rfl
  | _ => exact hread

theorem readItems_eq (h : Agree read read') {depth : Nat} {items : List Raw} {vs : List Json}
    (hitems : List.Forall₂ (fun item v => item.settle? depth = some v) items vs) :
    readItems read depth items = (Value.readItems read' (toValues vs)).mapError .direct := by
  induction hitems with
  | nil => rfl
  | @cons item v _ _ hv _ ih =>
    rw [readItems, toValues, Value.readItems, h ⟨depth, item⟩ v hv, ih, mapError_bind]
    refine bind_congr fun a => ?_
    rw [mapError_bind]
    rfl

theorem list (h : Agree read read') : Agree (readArray read) (Source.list read') := by
  intro ⟨depth, raw⟩ v hv
  cases Raw.settled_of_settle? hv with
  | arr hitems => exact h.readItems_eq hitems
  | _ => rfl

theorem readMembers_eq (h : Agree read read') {depth : Nat} {members : List (String × Raw)}
    {vs : List (String × Json)} (hmembers : List.Forall₂
      (fun e e' => e.1 = e'.1 ∧ e.2.settle? depth = some e'.2) members vs) :
    readMembers read depth members = (Value.readEntries read' (toPairs vs)).mapError .direct := by
  induction hmembers with
  | nil => rfl
  | @cons e e' _ _ hhead _ ih =>
    obtain ⟨key, raw⟩ := e
    obtain ⟨key', v⟩ := e'
    obtain ⟨rfl, hv⟩ : key = key' ∧ raw.settle? depth = some v := hhead
    rw [readMembers, toPairs, Value.readEntries, h ⟨depth, raw⟩ v hv, ih]
    change _ = (read' v.toValue >>= _).mapError TextFault.direct
    rw [mapError_bind]
    refine bind_congr fun a => ?_
    rw [mapError_bind]
    rfl

theorem entries (h : Agree read read') : Agree (readObject read) (Source.entries read') := by
  intro ⟨depth, raw⟩ v hv
  cases Raw.settled_of_settle? hv with
  | obj hmembers => exact h.readMembers_eq hmembers
  | _ => rfl

end Agree

end Json.Spot

/-! ## Records -/

namespace RecordReader

open Spot

/-- Two readers of one record: they put the same into a field, whether a value is buffered before it
is read or not. -/
structure Matches {δ α : Type} (r : RecordReader (Except TextFault) Spot δ α)
    (r' : RecordReader (Except Fault) Value δ α) : Prop where
  kind : r.kind = r'.kind
  draft : r.draft = r'.draft
  put : ∀ field d, Agree (r.put field · d) (r'.put field · d)
  finish : ∀ d, r.finish d = r'.finish d

variable {δ α : Type} {r : RecordReader (Except TextFault) Spot δ α}
  {r' : RecordReader (Except Fault) Value δ α}

theorem Matches.fill_eq (h : Matches r r') (seen : List String) {depth : Nat}
    {members : List (String × Raw)} {vs : List (String × Json)} (hmembers : List.Forall₂
      (fun e e' => e.1 = e'.1 ∧ e.2.settle? depth = some e'.2) members vs) (d : δ) :
    r.fill (fun key => .ok (r.field? key)) seen (spots depth members) d =
      (r'.fill (Value.fieldOf r'.kind) seen (Json.toPairs vs) d).mapError .direct := by
  induction hmembers generalizing seen d with
  | nil => rfl
  | @cons e e' members vs hhead _ ih =>
    obtain ⟨key, raw⟩ := e
    obtain ⟨key', v⟩ := e'
    obtain ⟨rfl, hv⟩ : key = key' ∧ raw.settle? depth = some v := hhead
    have hfield : Value.fieldOf r'.kind (.str key) = .ok (r.field? key) := by
      rw [field?, h.kind, Value.fieldOf]
    rw [spots, List.map_cons, Json.toPairs, fill, fill, hfield]
    cases r.field? key with
    | none => exact ih seen d
    | some field =>
      have hput : r.put field ⟨depth, raw⟩ d = (r'.put field v.toValue d).mapError .direct :=
        h.put field d ⟨depth, raw⟩ v hv
      change (if field ∈ seen then _ else r.put field ⟨depth, raw⟩ d >>= _) =
        (if field ∈ seen then _ else r'.put field v.toValue d >>= _ : Except Fault δ).mapError .direct
      by_cases hseen : field ∈ seen
      · rw [if_pos hseen, if_pos hseen]
        rfl
      · rw [if_neg hseen, if_neg hseen, mapError_bind, hput]
        exact bind_congr fun d => ih (field :: seen) d

theorem Matches.fillInOrder_eq (h : Matches r r') (fields : List String) {depth : Nat}
    {items : List Raw} {vs : List Json}
    (hitems : List.Forall₂ (fun item v => item.settle? depth = some v) items vs) (d : δ) :
    r.fillInOrder fields (items.map (⟨depth, ·⟩)) d =
      (r'.fillInOrder fields (Json.toValues vs) d).mapError .direct := by
  induction hitems generalizing fields d with
  | nil => cases fields <;> rfl
  | @cons raw v items vs hv _ ih =>
    cases fields with
    | nil => rfl
    | cons field fields =>
      have hput : r.put field ⟨depth, raw⟩ d = (r'.put field v.toValue d).mapError .direct :=
        h.put field d ⟨depth, raw⟩ v hv
      rw [List.map_cons, Json.toValues, fillInOrder, fillInOrder, mapError_bind, hput]
      exact bind_congr fun d => ih fields d

/-- A record is the same from an object, from an array, and as the fault of any other value. -/
theorem Matches.readRecord (h : Matches r r') : Agree (Spot.readRecord r) (Value.readRecord r') := by
  intro ⟨depth, raw⟩ v hv
  cases Raw.settled_of_settle? hv with
  | @obj depth members vs hmembers =>
    rw [Spot.readRecord, enter, Json.toValue, Value.readRecord, readPairs, readPairs,
      h.fill_eq [] hmembers, h.draft, mapError_bind]
    refine bind_congr fun d => ?_
    rw [h.finish]
    cases r'.finish d <;> rfl
  | @arr depth items vs hitems =>
    have hlength : (items.map (Spot.mk depth)).length = (Json.toValues vs).length := by
      rw [List.length_map, Json.toValues_eq_map, List.length_map, hitems.length_eq]
    rw [Spot.readRecord, enter, Json.toValue, Value.readRecord, readFields, readFields,
      h.fillInOrder_eq _ hitems, h.draft, h.kind, mapError_bind, hlength]
    refine bind_congr fun d => ?_
    rw [h.finish]
    cases r'.finish d with
    | error field => rfl
    | ok a =>
      dsimp only
      split <;> rfl
  | _ =>
    rw [Spot.readRecord.eq_def, h.kind]
    rfl

end RecordReader

/-! ## Parts of a method -/

open RecordReader Spot

theorem TypeName.agree_read : Agree TypeName.read TypeName.read :=
  agree_readText _ _

theorem Modifiers.agree_readFrom : Agree Modifiers.readFrom Modifiers.readFrom :=
  agree_readText _ _

theorem AnnotationValue.agree_read : Agree AnnotationValue.read AnnotationValue.read := by
  refine agree_buffer.bind fun value => ?_
  cases AnnotationValue.ofValue? value <;> rfl

theorem agree_readText_anyText : Agree readText readText :=
  agree_readText _ _

theorem TypeVariable.matches_reader : Matches TypeVariable.reader TypeVariable.reader where
  kind := rfl
  draft := rfl
  finish _ := rfl
  put field d := by
    dsimp only [TypeVariable.reader]
    split
    · exact agree_readText_anyText.bind fun _ => rfl
    · exact TypeName.agree_read.list.bind fun _ => rfl
    · exact fun _ _ _ => rfl

namespace Annotation

theorem matches_reader : Matches reader reader where
  kind := rfl
  draft := rfl
  finish _ := rfl
  put field d := by
    dsimp only [reader]
    split
    · exact TypeName.agree_read.bind fun _ => rfl
    · exact AnnotationValue.agree_read.entries.bind fun _ => rfl
    · exact fun _ _ _ => rfl

end Annotation

theorem Parameter.matches_reader : Matches Parameter.reader Parameter.reader where
  kind := rfl
  draft := rfl
  finish _ := rfl
  put field d := by
    dsimp only [Parameter.reader]
    split
    · exact TypeName.agree_read.bind fun _ => rfl
    · exact agree_readText_anyText.option.bind fun _ => rfl
    · exact Modifiers.agree_readFrom.bind fun _ => rfl
    · exact Annotation.matches_reader.readRecord.list.bind fun _ => rfl
    · exact fun _ _ _ => rfl

theorem MethodToken.matches_reader : Matches MethodToken.reader MethodToken.reader where
  kind := rfl
  draft := rfl
  finish _ := rfl
  put field d := by
    dsimp only [MethodToken.reader]
    split
    · exact agree_readText_anyText.bind fun _ => rfl
    · exact Modifiers.agree_readFrom.bind fun _ => rfl
    · exact TypeVariable.matches_reader.readRecord.list.bind fun _ => rfl
    · exact TypeName.agree_read.bind fun _ => rfl
    · exact Parameter.matches_reader.readRecord.list.bind fun _ => rfl
    · exact TypeName.agree_read.list.bind fun _ => rfl
    · exact Annotation.matches_reader.readRecord.list.bind fun _ => rfl
    · exact AnnotationValue.agree_read.option.bind fun _ => rfl
    · exact fun _ _ _ => rfl

/-- A token may be buffered before it is read, if it can be: it is the same token, or the same fault. -/
theorem MethodToken.agree_ofSpot : Agree MethodToken.ofSpot MethodToken.ofValue :=
  MethodToken.matches_reader.readRecord

theorem MethodToken.readJson_eq_ofSpot {text : String} {raw : Raw} (h : Raw.read text = some raw) :
    MethodToken.readJson text = MethodToken.ofSpot ⟨maxDepth, raw⟩ := by
  rw [MethodToken.readJson, h]

theorem MethodToken.exists_readJson_eq_ok {text : String} {raw : Raw} (h : Raw.read text = some raw)
    (hsome : (MethodToken.ofSpot ⟨maxDepth, raw⟩).toOption.isSome) :
    ∃ t, MethodToken.readJson text = .ok t := by
  obtain ⟨t, ht⟩ := Option.isSome_iff_exists.mp hsome
  exact ⟨t, (MethodToken.readJson_eq_ofSpot h).trans (eq_ok_of_toOption ht)⟩

/-! ## Methods -/

namespace Method

/-- A method is read off the value of its text, if that can be buffered. -/
theorem readJson_eq_ofValue {text : String} {raw : Raw} {v : Json} (h : Raw.read text = some raw)
    (hv : raw.settle? maxDepth = some v) : readJson text = (ofValue v.toValue).mapError .unfit := by
  rw [readJson, read_eq_settle, h, Option.bind_some, hv]

/-- No method is read off a text that cannot be buffered as a whole. -/
theorem fits_of_readJson {text : String} {raw : Raw} {m : Method} (h : Raw.read text = some raw)
    (hm : readJson text = .ok m) : raw.Fits maxDepth := by
  rw [← exists_read_eq_some_iff h]
  cases hread : Json.read text with
  | some v => exact ⟨v, rfl⟩
  | none =>
    rw [readJson, hread] at hm
    dsimp only at hm
    split at hm <;> cases hm

/-- The declaring type is taken out of the pairs wherever it stands; the other pairs stay. -/
theorem splitPairs_insert {before after : List (Value × Value)} (owner : String)
    (hbefore : ∀ e ∈ before, e.1 ≠ .str "declaring_type")
    (hafter : ∀ e ∈ after, e.1 ≠ .str "declaring_type") :
    splitPairs none (before ++ (.str "declaring_type", .str owner) :: after) =
      .ok (some ⟨owner⟩, before ++ after) := by
  induction before with
  | nil =>
    rw [List.nil_append, List.nil_append]
    exact splitPairs_of_forall_ne hafter (some ⟨owner⟩)
  | cons e before ih =>
    have hkey := hbefore e List.mem_cons_self
    rw [List.cons_append, splitPairs, ih fun b hb => hbefore b (List.mem_cons_of_mem _ hb)]
    · rfl
    · exact hkey

/-- A method is the declaring type with the token that the other members are read as, and its fault is
the one of that token. -/
theorem ofValue_insert {before after : List (String × Json)} (owner : String)
    (h : ∀ e ∈ before ++ after, e.1 ≠ "declaring_type") :
    ofValue (Json.obj (before ++ ("declaring_type", .str owner) :: after)).toValue =
      (MethodToken.ofValue (Json.obj (before ++ after)).toValue).map (⟨⟨owner⟩, ·⟩) := by
  have hkeys : ∀ members : List (String × Json), (∀ e ∈ members, e ∈ before ++ after) →
      ∀ e ∈ Json.toPairs members, e.1 ≠ .str "declaring_type" := by
    intro members hmembers e he
    rw [Json.toPairs_eq_map] at he
    obtain ⟨e', he', rfl⟩ := List.mem_map.mp he
    exact fun heq => h e' (hmembers e' he') (Value.str.inj heq)
  have hsplit := splitPairs_insert owner (hkeys before fun _ he => List.mem_append_left _ he)
    (hkeys after fun _ he => List.mem_append_right _ he)
  have hpairs : Json.toPairs (before ++ ("declaring_type", .str owner) :: after) =
      Json.toPairs before ++ (.str "declaring_type", .str owner) :: Json.toPairs after := by
    simp only [Json.toPairs_eq_map, List.map_append, List.map_cons, Json.toValue]
  have hrest : Json.toPairs before ++ Json.toPairs after = Json.toPairs (before ++ after) := by
    simp only [Json.toPairs_eq_map, List.map_append]
  rw [Json.toValue, ofValue, hpairs, hsplit, hrest, Json.toValue]
  rfl

/-- The value of an object with a declaring type among its members. -/
theorem settle?_insert {depth : Nat} {before after : List (String × Raw)} {v : Json} (owner : String)
    (h : Raw.settle? depth (.obj (before ++ after)) = some v) :
    ∃ bs as, v = .obj (bs ++ as) ∧ (bs ++ as).map Prod.fst = (before ++ after).map Prod.fst ∧
      Raw.settle? depth (.obj (before ++ ("declaring_type", .str owner) :: after)) =
        some (.obj (bs ++ ("declaring_type", .str owner) :: as)) := by
  cases Raw.settled_of_settle? h with
  | @obj depth _ vs hmembers =>
    have hall := Raw.settleMembers?_eq_some_iff.mpr hmembers
    rw [Raw.settleMembers?_append] at hall
    obtain ⟨bs, hbs, hrest⟩ := Option.bind_eq_some_iff.mp hall
    obtain ⟨as, has, rfl⟩ := Option.map_eq_some_iff.mp hrest
    refine ⟨bs, as, rfl, (map_fst_eq_of_forall₂ hmembers).symm, ?_⟩
    rw [Raw.settle?, Raw.settleMembers?_append, hbs, Raw.settleMembers?, has]
    rfl

/-- The declaring type can be buffered, so an object can if its other members can. -/
theorem fits_insert_iff {depth : Nat} {before after : List (String × Raw)} (owner : String) :
    Raw.Fits (depth + 1) (.obj (before ++ ("declaring_type", .str owner) :: after)) ↔
      Raw.Fits (depth + 1) (.obj (before ++ after)) := by
  have howner : Raw.Fits depth (.str owner) := (Raw.isSome_settle?_iff _).mp (by simp [Raw.settle?])
  simp only [Raw.fits_obj_iff, List.forall_mem_append, List.forall_mem_cons, howner, true_and]

/-- A method is read from the text of an object that has a declaring type exactly if all of the text
can be buffered and a token is read from a text of the other members, wherever the declaring type
stands: it is that token, on that type.  If the text can be buffered, what one reader refuses the
other one refuses too, with the same fault. -/
theorem readJson_insert_iff {text text' : String} {before after : List (String × Raw)} (owner : String)
    (hkeys : ∀ e ∈ before ++ after, e.1 ≠ "declaring_type")
    (htext : Raw.read text = some (.obj (before ++ after)))
    (htext' : Raw.read text' = some (.obj (before ++ ("declaring_type", .str owner) :: after))) :
    (∀ m, readJson text' = .ok m ↔ Raw.Fits maxDepth (.obj (before ++ after)) ∧
      ∃ t, MethodToken.readJson text = .ok t ∧ m = ⟨⟨owner⟩, t⟩) ∧
    (Raw.Fits maxDepth (.obj (before ++ after)) → ∀ fault, readJson text' = .error (.unfit fault) →
      MethodToken.readJson text = .error (.direct fault)) := by
  by_cases hfits : Raw.Fits maxDepth (.obj (before ++ after))
  · obtain ⟨v, hv⟩ := Raw.exists_settle?_iff.mpr hfits
    obtain ⟨bs, as, rfl, hsame, hv'⟩ := settle?_insert owner hv
    have hnone : ∀ e ∈ bs ++ as, e.1 ≠ "declaring_type" := by
      intro e he heq
      have hmem : e.1 ∈ (before ++ after).map Prod.fst := hsame ▸ List.mem_map_of_mem he
      obtain ⟨e', he', hkey⟩ := List.mem_map.mp hmem
      exact hkeys e' he' (hkey.trans heq)
    have htoken : MethodToken.readJson text =
        (MethodToken.ofValue (Json.obj (bs ++ as)).toValue).mapError .direct := by
      rw [MethodToken.readJson_eq_ofSpot htext]
      exact MethodToken.agree_ofSpot _ _ hv
    rw [readJson_eq_ofValue htext' hv', ofValue_insert owner hnone, htoken]
    cases MethodToken.ofValue (Json.obj (bs ++ as)).toValue <;>
      simp [Except.map, Except.mapError, hfits, eq_comm]
  · have hno : ∀ m, readJson text' ≠ .ok m := fun m hm =>
      hfits ((fits_insert_iff owner).mp (fits_of_readJson htext' hm))
    exact ⟨fun m => iff_of_false (hno m) fun h => hfits h.1, fun h => absurd h hfits⟩

/-- Unknown members may repeat, and a parameter may be the list of its fields. -/
theorem readJson_insert_iff_of_positional :
    let text :=
      "\x7b\"x\":[1],\"name\":\"f\",\"return_type\":\"V\",\"x\":0,\"parameters\":[[\"V\"]]\x7d"
    let text' :=
      "\x7b\"x\":[1],\"name\":\"f\",\"declaring_type\":\"A\",\"return_type\":\"V\",\"x\":0,\"parameters\":[[\"V\"]]\x7d"
    let before := [("x", Raw.arr [.int 1]), ("name", .str "f")]
    let after := [("return_type", Raw.str "V"), ("x", .int 0), ("parameters", .arr [.arr [.str "V"]])]
    (∀ e ∈ before ++ after, e.1 ≠ "declaring_type") ∧
      Raw.read text = some (.obj (before ++ after)) ∧
      Raw.read text' = some (.obj (before ++ ("declaring_type", .str "A") :: after)) ∧
      Raw.Fits maxDepth (.obj (before ++ after)) ∧
      ∃ t, MethodToken.readJson text = .ok t ∧ readJson text' = .ok ⟨⟨"A"⟩, t⟩ := by
  intro text text' before after
  have hkeys : ∀ e ∈ before ++ after, e.1 ≠ "declaring_type" := by decide
  have htext : Raw.read text = some (.obj (before ++ after)) := by
    simp only [Raw.read, text, String.reduceToList]
    rfl
  have htext' : Raw.read text' = some (.obj (before ++ ("declaring_type", .str "A") :: after)) := by
    simp only [Raw.read, text', String.reduceToList]
    rfl
  have hfits : Raw.Fits maxDepth (.obj (before ++ after)) := Raw.exists_settle?_iff.mp ⟨_, rfl⟩
  obtain ⟨t, hread⟩ := MethodToken.exists_readJson_eq_ok htext rfl
  have hmethod := (readJson_insert_iff "A" hkeys htext htext').1
  exact ⟨hkeys, htext, htext', hfits, t, hread, (hmethod _).mpr ⟨hfits, t, hread, rfl⟩⟩

/-- A number that is no double, under a key that is no field, is passed over by the reader of tokens
only. -/
theorem readJson_insert_of_number_out_of_range :
    let text := "\x7b\"name\":\"f\",\"return_type\":\"V\",\"x\":1e9999999999\x7d"
    let text' := "\x7b\"declaring_type\":\"A\",\"name\":\"f\",\"return_type\":\"V\",\"x\":1e9999999999\x7d"
    let members := [("name", Raw.str "f"), ("return_type", .str "V"), ("x", .valueless)]
    Raw.read text = some (.obj members) ∧
      Raw.read text' = some (.obj (("declaring_type", .str "A") :: members)) ∧
      ∃ t, MethodToken.readJson text = .ok t ∧ readJson text' ≠ .ok ⟨⟨"A"⟩, t⟩ := by
  intro text text' members
  have htext : Raw.read text = some (.obj members) := by
    simp only [Raw.read, text, String.reduceToList]
    rfl
  have htext' : Raw.read text' = some (.obj (("declaring_type", .str "A") :: members)) := by
    simp only [Raw.read, text', String.reduceToList]
    rfl
  obtain ⟨t, hread⟩ := MethodToken.exists_readJson_eq_ok htext rfl
  refine ⟨htext, htext', t, hread, fun h => ?_⟩
  -- the object as a whole would have to be buffered
  obtain ⟨v, hv⟩ := Raw.exists_settle?_iff.mpr (fits_of_readJson htext' h)
  cases hv

end Method

end Redeclare
