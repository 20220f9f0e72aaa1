import Mathlib.Data.List.Nodup
import Mathlib.Data.List.Perm.Basic
import Redeclare.Proofs.Json.Raw
import Redeclare.Proofs.KeyMap
import Redeclare.Proofs.Reading.Run
import Redeclare.Reading.JsonText

/-!
# JSON values that readers take for the same

An object may have its members in another order, and an object that is read as
a record may have further members that are no fields of it.

* `Json.Role` is what a value is read as, and what its parts are read as then;
  `Raw.Variant` relates a value to those that differ from it in these ways, at
  any depth.
* A reader with `Spot.ReadsAlike` gives the same result for a value and for each
  of its variants.  There is one lemma for each way to read a part of a value:
  `ReadsAlike.option`, `ReadsAlike.list` and so on.
* `RecordReader.fill_eq_ok_iff` says what becomes of the members of a record: no
  field may occur twice, and the fields are put in one after the other.  If each
  has a place of its own in the draft (`RecordReader.Fieldwise`), their order
  makes no difference, and `PutsAlike.readRecord` is the lemma for records.
-/

namespace Redeclare

/-! ## Variants -/

/-- The keys that an object has a meaning for when it is read as a record. -/
def RecordKind.keys : RecordKind → List String
  | method => "declaring_type" :: token.fields
  | kind => kind.fields

theorem RecordKind.fields_subset_keys (kind : RecordKind) : kind.fields ⊆ kind.keys := by
  cases kind with
  | method => exact List.nil_subset _
  | _ => exact List.Subset.refl _

namespace Json

/-- What a value is read as: a value of no particular kind, a record, or a list of records. -/
inductive Role where
  | value
  | record (kind : RecordKind)
  | records (kind : RecordKind)

namespace Role

/-- What the value of a field of a token is read as. -/
def ofTokenField : String → Role
  | "type_variables" => records .typeVariable
  | "parameters" => records .parameter
  | "annotations" => records .annotated
  | _ => value

/-- What the value of a field is read as; a method has the fields of its token. -/
def ofField : RecordKind → String → Role
  | .method, key | .token, key => ofTokenField key
  | .parameter, "annotations" => records .annotated
  | _, _ => value

/-- What a member of an object is read as. -/
def member : Role → String → Role
  | record kind, key => ofField kind key
  | _, _ => value

/-- What an item of an array is read as; a record may be the list of its fields. -/
def item : Role → Nat → Role
  | record kind, i => (kind.fields[i]?).elim value (ofField kind)
  | records kind, _ => record kind
  | value, _ => value

/-- A member with this key means nothing to the reader of an object. -/
def Ignores : Role → String → Prop
  | record kind, key => key ∉ kind.keys
  | _, _ => False

end Role

namespace Raw

mutual

/-- A value with the members of its objects in another order, and with further members in the objects
that are read as records; `role` is what the value is read as. -/
inductive Variant : Role → Raw → Raw → Prop where
  | same {role : Role} {v : Raw} : Variant role v v
  | arr {role : Role} {items items' : List Raw} (hitems : ItemVariants role 0 items items') :
      Variant role (.arr items) (.arr items')
  | obj {role : Role} {members changed extra members' : List (String × Raw)}
      (hchanged : MemberVariants role members changed) (hextra : ∀ e ∈ extra, role.Ignores e.1)
      (hperm : (changed ++ extra).Perm members') : Variant role (.obj members) (.obj members')

/-- The items of an array from a place on, each by a variant of it. -/
inductive ItemVariants : Role → Nat → List Raw → List Raw → Prop where
  | nil {role : Role} {i : Nat} : ItemVariants role i [] []
  | cons {role : Role} {i : Nat} {item item' : Raw} {items items' : List Raw}
      (head : Variant (role.item i) item item') (tail : ItemVariants role (i + 1) items items') :
      ItemVariants role i (item :: items) (item' :: items')

/-- The members of an object in their order, each value by a variant of it. -/
inductive MemberVariants : Role → List (String × Raw) → List (String × Raw) → Prop where
  | nil {role : Role} : MemberVariants role [] []
  | cons {role : Role} {key : String} {v v' : Raw} {members members' : List (String × Raw)}
      (head : Variant (role.member key) v v') (tail : MemberVariants role members members') :
      MemberVariants role ((key, v) :: members) ((key, v') :: members')

end

theorem MemberVariants.forall₂ {role : Role} : ∀ {members changed : List (String × Raw)},
    MemberVariants role members changed → List.Forall₂
      (fun e e' => e.1 = e'.1 ∧ Variant (role.member e.1) e.2 e'.2) members changed
  | _, _, .nil => .nil
  | _, _, .cons head tail => .cons ⟨rfl, head⟩ tail.forall₂

/-- What is true of items and their variants, wherever these stand. -/
theorem ItemVariants.forall₂ {role : Role} {T : Raw → Raw → Prop} :
    ∀ {i : Nat} {items items' : List Raw}, ItemVariants role i items items' →
      (∀ item ∈ items, ∀ i item', Variant (role.item i) item item' → T item item') →
      List.Forall₂ T items items'
  | _, _, _, .nil, _ => .nil
  | _, _, _, .cons head tail, h =>
    .cons (h _ List.mem_cons_self _ _ head)
      (tail.forall₂ fun item hitem => h item (List.mem_cons_of_mem _ hitem))

theorem ItemVariants.length_eq {role : Role} : ∀ {i : Nat} {items items' : List Raw},
    ItemVariants role i items items' → items.length = items'.length
  | _, _, _, .nil => rfl
  | _, _, _, .cons _ tail => congrArg Nat.succ tail.length_eq

/-- Roles in which the members of objects are read as the same things. -/
theorem MemberVariants.congr {role role' : Role} (h : ∀ key, role.member key = role'.member key) :
    ∀ {members changed : List (String × Raw)}, MemberVariants role members changed →
      MemberVariants role' members changed
  | _, _, .nil => .nil
  | _, _, .cons head tail => .cons (h _ ▸ head) (tail.congr h)

/-- An object that is read as a method is read as its token as well. -/
theorem Variant.token {members : List (String × Raw)} {v' : Raw}
    (h : Variant (.record .method) (.obj members) v') : Variant (.record .token) (.obj members) v' := by
  have hroles : ∀ key, (Role.record .method).member key = (Role.record .token).member key :=
    fun _ => rfl
  cases h with
  | same => exact .same
  | obj hchanged hextra hperm =>
    exact .obj (hchanged.congr hroles) (fun e he hmem => hextra e he (List.mem_cons_of_mem _ hmem)) hperm

mutual

/-- A value can be buffered if one of its variants can. -/
theorem Variant.fits {role : Role} : ∀ {v v' : Raw}, Variant role v v' → ∀ {depth : Nat},
    v'.Fits depth → v.Fits depth
  | _, _, .same, _, h => h
  | _, _, .arr _, 0, h => absurd h (not_fits_zero_arr _)
  | _, _, .arr hitems, _ + 1, h => fits_arr_iff.mpr (hitems.fits (fits_arr_iff.mp h))
  | _, _, .obj _ _ _, 0, h => absurd h (not_fits_zero_obj _)
  | _, _, .obj hchanged _ hperm, _ + 1, h =>
    fits_obj_iff.mpr (hchanged.fits fun e he =>
      fits_obj_iff.mp h e (hperm.subset (List.mem_append_left _ he)))

theorem ItemVariants.fits {role : Role} : ∀ {i : Nat} {items items' : List Raw},
    ItemVariants role i items items' → ∀ {depth : Nat}, (∀ item ∈ items', item.Fits depth) →
      ∀ item ∈ items, item.Fits depth
  | _, _, _, .nil, _, h => h
  | _, _, _, .cons head tail, _, h =>
    have ⟨hhead, htail⟩ := List.forall_mem_cons.mp h
    List.forall_mem_cons.mpr ⟨head.fits hhead, tail.fits htail⟩

theorem MemberVariants.fits {role : Role} : ∀ {members changed : List (String × Raw)},
    MemberVariants role members changed → ∀ {depth : Nat}, (∀ e ∈ changed, e.2.Fits depth) →
      ∀ e ∈ members, e.2.Fits depth
  | _, _, .nil, _, h => h
  | _, _, .cons head tail, _, h =>
    have ⟨hhead, htail⟩ := List.forall_mem_cons.mp h
    List.forall_mem_cons.mpr ⟨head.fits hhead, tail.fits htail⟩

end

end Raw

/-! ## Readers of parts -/

namespace Spot

section Parts

variable {α : Type} {read : Spot → Except TextFault α} {depth : Nat}

theorem toOption_readItems_of_forall₂ {items items' : List Raw} (h : List.Forall₂
      (fun v v' => (read ⟨depth, v⟩).toOption = (read ⟨depth, v'⟩).toOption) items items') :
    (readItems read depth items).toOption = (readItems read depth items').toOption := by
  induction h with
  | nil => rfl
  | cons hhead _ ih =>
    rw [readItems, readItems, toOption_bind, toOption_bind, hhead]
    simp only [toOption_bind, ih]

theorem toOption_readMembers_of_forall₂ {members members' : List (String × Raw)} (h : List.Forall₂
      (fun e e' => e.1 = e'.1 ∧ (read ⟨depth, e.2⟩).toOption = (read ⟨depth, e'.2⟩).toOption)
      members members') :
    (readMembers read depth members).toOption = (readMembers read depth members').toOption := by
  induction h with
  | nil => rfl
  | @cons e e' _ _ hhead _ ih =>
    obtain ⟨key, v⟩ := e
    obtain ⟨key', v'⟩ := e'
    obtain ⟨rfl, hread⟩ :
        key = key' ∧ (read ⟨depth, v⟩).toOption = (read ⟨depth, v'⟩).toOption := hhead
    rw [readMembers, readMembers, toOption_bind, toOption_bind, hread]
    simp only [toOption_bind, ih]

theorem readMembers_eq_ok_iff {members : List (String × Raw)} {entries : List (String × α)} :
    readMembers read depth members = .ok entries ↔
      List.Forall₂ (fun e e' => e.1 = e'.1 ∧ read ⟨depth, e.2⟩ = .ok e'.2) members entries := by
  induction members generalizing entries with
  | nil =>
    rw [readMembers, List.forall₂_nil_left_iff, Except.ok.injEq, eq_comm]
  | cons e members ih =>
    obtain ⟨key, v⟩ := e
    rw [readMembers, bind_eq_ok_iff, List.forall₂_cons_left_iff]
    constructor
    · rintro ⟨a, ha, hrest⟩
      obtain ⟨rest, hread, heq⟩ := bind_eq_ok_iff.mp hrest
      exact ⟨(key, a), rest, ⟨rfl, ha⟩, ih.mp hread, (Except.ok.inj heq).symm⟩
    · rintro ⟨⟨key', a⟩, rest, ⟨hkey, ha⟩, hrest, rfl⟩
      obtain rfl : key = key' := hkey
      exact ⟨a, ha, bind_eq_ok_iff.mpr ⟨rest, ih.mpr hrest, rfl⟩⟩

/-- Entries that are read off members in another order are the same entries in that order. -/
theorem ofList_eq_of_perm_of_readMembers {members members' : List (String × Raw)}
    {entries : List (String × α)} (hperm : members.Perm members')
    (hdistinct : (members.map Prod.fst).Nodup) (h : readMembers read depth members = .ok entries) :
    ∃ entries', readMembers read depth members' = .ok entries' ∧
      KeyMap.ofList entries = KeyMap.ofList entries' := by
  have hentries := readMembers_eq_ok_iff.mp h
  obtain ⟨entries', hentries', hperm'⟩ := List.perm_comp_forall₂ hperm.symm hentries
  rw [map_fst_eq_of_forall₂ (R := fun e e' => read ⟨depth, e.2⟩ = .ok e'.2) hentries] at hdistinct
  exact ⟨entries', readMembers_eq_ok_iff.mpr hentries', ofList_eq_of_perm hperm'.symm hdistinct⟩

end Parts

/-- A reader has the same result for a value and for its variants; it may fail in different ways. -/
def ReadsAlike {α : Type} (role : Role) (read : Spot → Except TextFault α) : Prop :=
  ∀ depth v v', v.DistinctKeys → v.Variant role v' →
    (read ⟨depth, v⟩).toOption = (read ⟨depth, v'⟩).toOption

namespace ReadsAlike

variable {α β : Type} {role : Role} {read : Spot → Except TextFault α}

theorem text {expected : Expected} {parse : String → Except Fault α} :
    ReadsAlike role (readText expected parse) := by
  intro depth v v' _ hvariant
  cases hvariant with
  | same => rfl
  | arr _ => rfl
  | obj _ _ _ => rfl

theorem option (h : ReadsAlike role read) : ReadsAlike role (readOption read) := by
  intro depth v v' hkeys hvariant
  have hread := h depth v v' hkeys hvariant
  cases hvariant with
  | same => rfl
  | arr _ =>
    dsimp only [readOption]
    rw [toOption_map, toOption_map, hread]
  | obj _ _ _ =>
    dsimp only [readOption]
    rw [toOption_map, toOption_map, hread]

/-- What is done with a result does not matter. -/
theorem bind (h : ReadsAlike role read) (f : α → Except TextFault β) :
    ReadsAlike role fun x => read x >>= f := by
  intro depth v v' hkeys hvariant
  rw [toOption_bind, toOption_bind, h depth v v' hkeys hvariant]

theorem list (h : ∀ i, ReadsAlike (role.item i) read) : ReadsAlike role (readArray read) := by
  intro depth v v' hkeys hvariant
  cases hvariant with
  | same => rfl
  | obj _ _ _ => rfl
  | arr hitems =>
    cases depth with
    | zero => rfl
    | succ depth =>
      exact toOption_readItems_of_forall₂
        (hitems.forall₂ fun item hitem i item' => h i depth item item' (hkeys.item hitem))

theorem records {kind : RecordKind} (h : ReadsAlike (.record kind) read) :
    ReadsAlike (.records kind) (readArray read) :=
  list fun _ => h

/-- The members of a map may stand in any order, for their keys differ. -/
theorem map (h : ReadsAlike .value read) (f : KeyMap α → Except TextFault β) :
    ReadsAlike .value fun x => readObject read x >>= fun entries => f (.ofList entries) := by
  intro depth v v' hkeys hvariant
  cases hvariant with
  | same => rfl
  | arr _ => rfl
  | @obj _ members changed extra members' hchanged hextra hperm =>
    obtain rfl : extra = [] := List.eq_nil_iff_forall_not_mem.mpr hextra
    rw [List.append_nil] at hperm
    cases depth with
    | zero => rfl
    | succ depth =>
      have hvalues := hchanged.forall₂
      have hdistinct : (changed.map Prod.fst).Nodup :=
        map_fst_eq_of_forall₂ hvalues ▸ hkeys members .here
      have hsame : (readMembers read depth members).toOption = (readMembers read depth changed).toOption :=
        toOption_readMembers_of_forall₂ (forall₂_of_mem hvalues fun e he e' hvalue =>
          ⟨hvalue.1, h depth e.2 e'.2 (hkeys.member he) hvalue.2⟩)
      dsimp only [readObject, enter]
      rw [toOption_bind, hsame, ← toOption_bind]
      refine toOption_eq_of_forall_ok_iff fun b => ?_
      rw [bind_eq_ok_iff, bind_eq_ok_iff]
      constructor
      · rintro ⟨entries, hread, hf⟩
        obtain ⟨entries', hread', heq⟩ := ofList_eq_of_perm_of_readMembers hperm hdistinct hread
        exact ⟨entries', hread', heq ▸ hf⟩
      · rintro ⟨entries, hread, hf⟩
        obtain ⟨entries', hread', heq⟩ := ofList_eq_of_perm_of_readMembers hperm.symm
          ((hperm.map Prod.fst).nodup_iff.mp hdistinct) hread
        exact ⟨entries', hread', heq ▸ hf⟩

end ReadsAlike

end Spot

end Json

/-! ## Records -/

namespace RecordReader

open Json Spot

variable {δ α : Type} {r : RecordReader (Except TextFault) Spot δ α}

/-- The members of an object that are fields of the record. -/
def known (r : RecordReader (Except TextFault) Spot δ α) (members : List (String × Spot)) :
    List (String × Spot) :=
  members.filter fun e => e.1 ∈ r.kind.fields

/-- The draft behind one more field, if none has failed. -/
def putNext (r : RecordReader (Except TextFault) Spot δ α) (d : Option δ) (e : String × Spot) :
    Option δ :=
  d.bind fun d => (r.put e.1 e.2 d).toOption

theorem foldl_putNext_none (members : List (String × Spot)) :
    members.foldl r.putNext none = none := by
  induction members with
  | nil => rfl
  | cons e members ih => exact ih

theorem known_cons_of_mem {key : String} (h : key ∈ r.kind.fields) (x : Spot)
    (members : List (String × Spot)) : r.known ((key, x) :: members) = (key, x) :: r.known members :=
  List.filter_cons_of_pos (by simpa using h)

theorem known_cons_of_notMem {key : String} (h : key ∉ r.kind.fields) (x : Spot)
    (members : List (String × Spot)) : r.known ((key, x) :: members) = r.known members :=
  List.filter_cons_of_neg (by simpa using h)

/-- A key that is new stands before those that may not come any more. -/
theorem nodup_cons_and_fresh_iff {key : String} {x : Spot} {members : List (String × Spot)}
    {seen : List String} (hseen : key ∉ seen) :
    (key :: members.map Prod.fst).Nodup ∧ (∀ e ∈ (key, x) :: members, e.1 ∉ seen) ↔
      (members.map Prod.fst).Nodup ∧ ∀ e ∈ members, e.1 ∉ key :: seen := by
  constructor
  · rintro ⟨hdistinct, hfresh⟩
    obtain ⟨hhead, hdistinct⟩ := List.nodup_cons.mp hdistinct
    refine ⟨hdistinct, fun e he hmem => ?_⟩
    rcases List.mem_cons.mp hmem with heq | hmem
    · exact hhead (List.mem_map.mpr ⟨e, he, heq⟩)
    · exact hfresh e (List.mem_cons_of_mem _ he) hmem
  · rintro ⟨hdistinct, hfresh⟩
    have hhead : key ∉ members.map Prod.fst := by
      intro hmem
      obtain ⟨e, he, heq⟩ := List.mem_map.mp hmem
      exact hfresh e he (heq ▸ List.mem_cons_self)
    have htail : ∀ e ∈ members, e.1 ∉ seen := fun e he hmem =>
      hfresh e he (List.mem_cons_of_mem _ hmem)
    exact ⟨List.nodup_cons.mpr ⟨hhead, hdistinct⟩, List.forall_mem_cons.mpr ⟨hseen, htail⟩⟩

/-- A draft is filled exactly if no field occurs twice, by putting the fields in one after the
other. -/
theorem fill_eq_ok_iff {seen : List String} {members : List (String × Spot)} {d d' : δ} :
    r.fill (fun key => .ok (r.field? key)) seen members d = .ok d' ↔
      (((r.known members).map Prod.fst).Nodup ∧ ∀ e ∈ r.known members, e.1 ∉ seen) ∧
        (r.known members).foldl r.putNext (some d) = some d' := by
  induction members generalizing seen d with
  | nil => simp [fill, known, pure, Except.pure]
  | cons e members ih =>
    obtain ⟨key, x⟩ := e
    by_cases hkey : key ∈ r.kind.fields
    · have hfield : r.field? key = some key := if_pos hkey
      rw [known_cons_of_mem hkey, fill, hfield, List.foldl_cons]
      change (if key ∈ seen then _ else _) = _ ↔ _
      split_ifs with hseen
      · exact ⟨nofun, fun h => absurd hseen (h.1.2 _ List.mem_cons_self)⟩
      · cases hput : r.put key x d with
        | error fault =>
          have hnext : r.putNext (some d) (key, x) = none := congrArg Except.toOption hput
          rw [hnext, foldl_putNext_none]
          exact ⟨nofun, fun h => nomatch h.2⟩
        | ok next =>
          have hnext : r.putNext (some d) (key, x) = some next := congrArg Except.toOption hput
          change r.fill _ (key :: seen) members next = _ ↔ _
          rw [hnext, List.map_cons, nodup_cons_and_fresh_iff hseen, ih]
    · have hfield : r.field? key = none := if_neg hkey
      rw [known_cons_of_notMem hkey, fill, hfield]
      exact ih

theorem toOption_readPairs_of_fill_eq {members members' : List (String × Spot)}
    (h : (r.fill (fun key => .ok (r.field? key)) [] members r.draft).toOption =
      (r.fill (fun key => .ok (r.field? key)) [] members' r.draft).toOption) :
    (r.readPairs (fun key => .ok (r.field? key)) members).toOption =
      (r.readPairs (fun key => .ok (r.field? key)) members').toOption := by
  rw [readPairs, readPairs, toOption_bind, toOption_bind, h]

/-- Each field of a record has a place of its own in the draft: `take field e d` is the draft `d` with
the field of the draft `e`, and what is put into a field goes there, whatever else is in the draft. -/
structure Fieldwise (r : RecordReader (Except TextFault) Spot δ α) (take : String → δ → δ → δ) :
    Prop where
  put_eq : ∀ field x d, r.put field x d = (r.put field x r.draft).map (take field · d)
  take_comm : ∀ {f g : String}, f ≠ g → ∀ e e' d, take f e (take g e' d) = take g e' (take f e d)

variable {take : String → δ → δ → δ}

theorem Fieldwise.toOption_put (h : r.Fieldwise take) (field : String) (x : Spot) (d : δ) :
    (r.put field x d).toOption = (r.put field x r.draft).toOption.map (take field · d) := by
  rw [h.put_eq, toOption_map]

theorem Fieldwise.putNext_comm (h : r.Fieldwise take) {e e' : String × Spot} (hne : e.1 ≠ e'.1)
    (d : Option δ) : r.putNext (r.putNext d e) e' = r.putNext (r.putNext d e') e := by
  cases d with
  | none => rfl
  | some d =>
    have hfirst := h.toOption_put e.1 e.2
    have hsecond := h.toOption_put e'.1 e'.2
    generalize (r.put e.1 e.2 r.draft).toOption = first at hfirst
    generalize (r.put e'.1 e'.2 r.draft).toOption = second at hsecond
    simp only [putNext, Option.bind_some, hfirst, hsecond]
    cases first <;> cases second <;> simp [h.take_comm hne]

theorem Fieldwise.foldl_putNext_perm (h : r.Fieldwise take) {members members' : List (String × Spot)}
    (hperm : members.Perm members') (hdistinct : (members.map Prod.fst).Nodup) (d : Option δ) :
    members.foldl r.putNext d = members'.foldl r.putNext d := by
  refine hperm.foldl_eq' (fun e he e' he' d => ?_) d
  by_cases heq : e = e'
  · rw [heq]
  · exact h.putNext_comm (fun hkey => heq (List.inj_on_of_nodup_map hdistinct he he' hkey)) d

theorem foldl_putNext_of_forall₂ {members members' : List (String × Spot)} (h : List.Forall₂
      (fun e e' => e.1 = e'.1 ∧ ∀ d, (r.put e.1 e.2 d).toOption = (r.put e'.1 e'.2 d).toOption)
      members members') (d : Option δ) : members.foldl r.putNext d = members'.foldl r.putNext d := by
  induction h generalizing d with
  | nil => rfl
  | @cons e e' _ _ hhead _ ih =>
    have hnext : r.putNext d e = r.putNext d e' := Option.bind_congr fun d _ => hhead.2 d
    rw [List.foldl_cons, List.foldl_cons, hnext, ih]

theorem known_append_of_ignores {members extra : List (String × Spot)}
    (h : ∀ e ∈ extra, (Role.record r.kind).Ignores e.1) : r.known (members ++ extra) = r.known members := by
  have hnone : r.known extra = [] := List.filter_eq_nil_iff.mpr fun e he => by
    simpa using fun hmem => h e he (r.kind.fields_subset_keys hmem)
  rw [known, List.filter_append]
  exact (congrArg _ hnone).trans (List.append_nil _)

/-- What is put into the fields of a record is the same for each variant of their values. -/
def PutsAlike (r : RecordReader (Except TextFault) Spot δ α) : Prop :=
  ∀ field, ReadsAlike (.ofField r.kind field) fun x => r.put field x r.draft

theorem PutsAlike.toOption_put_eq (hput : r.PutsAlike) (h : r.Fieldwise take) {field : String}
    {v v' : Raw} (hkeys : v.DistinctKeys) (hvariant : v.Variant (.ofField r.kind field) v')
    (depth : Nat) (d : δ) :
    (r.put field ⟨depth, v⟩ d).toOption = (r.put field ⟨depth, v'⟩ d).toOption := by
  rw [h.toOption_put field ⟨depth, v⟩, h.toOption_put field ⟨depth, v'⟩]
  exact congrArg _ (hput field depth v v' hkeys hvariant)

/-- The members of an object fill the same draft as those of its variants. -/
theorem PutsAlike.toOption_fill_eq (hput : r.PutsAlike) (h : r.Fieldwise take)
    {members changed extra members' : List (String × Raw)} (hkeys : (Raw.obj members).DistinctKeys)
    (hchanged : Raw.MemberVariants (.record r.kind) members changed)
    (hextra : ∀ e ∈ extra, (Role.record r.kind).Ignores e.1)
    (hperm : (changed ++ extra).Perm members') (depth : Nat) :
    (r.fill (fun key => .ok (r.field? key)) [] (spots depth members) r.draft).toOption =
      (r.fill (fun key => .ok (r.field? key)) [] (spots depth members') r.draft).toOption := by
  have hvalues : List.Forall₂
      (fun e e' => e.1 = e'.1 ∧ ∀ d, (r.put e.1 e.2 d).toOption = (r.put e'.1 e'.2 d).toOption)
      (spots depth members) (spots depth changed) :=
    List.forall₂_map_left_iff.mpr (List.forall₂_map_right_iff.mpr
      (forall₂_of_mem hchanged.forall₂ fun e he e' hvalue =>
        ⟨hvalue.1, hvalue.1 ▸ hput.toOption_put_eq h (hkeys.member he) hvalue.2 depth⟩))
  have hignored : ∀ e ∈ spots depth extra, (Role.record r.kind).Ignores e.1 :=
    List.forall_mem_map.mpr hextra
  have hspots : (spots depth changed ++ spots depth extra).Perm (spots depth members') := by
    rw [spots, spots, ← List.map_append]
    exact hperm.map _
  have hknown : List.Forall₂ _ (r.known (spots depth members)) (r.known (spots depth changed)) :=
    forall₂_filter (· ∈ r.kind.fields) hvalues
  have hmoved : (r.known (spots depth changed)).Perm (r.known (spots depth members')) :=
    known_append_of_ignores hignored ▸ hspots.filter _
  have hsame : (r.known (spots depth members)).map Prod.fst =
      (r.known (spots depth changed)).map Prod.fst := map_fst_eq_of_forall₂ hknown
  refine toOption_eq_of_forall_ok_iff fun d => ?_
  simp only [fill_eq_ok_iff, List.not_mem_nil, not_false_eq_true, implies_true, and_true]
  rw [← (hmoved.map Prod.fst).nodup_iff, hsame, foldl_putNext_of_forall₂ hknown]
  refine and_congr_right fun hdistinct => ?_
  rw [h.foldl_putNext_perm hmoved hdistinct]

/-! ### Lists of fields -/

/-- The items of an array fill the same draft as those of its variants, from any field on. -/
theorem PutsAlike.toOption_fillInOrder_eq (hput : r.PutsAlike) (h : r.Fieldwise take) (depth : Nat) :
    ∀ {i : Nat} {items items' : List Raw}, Raw.ItemVariants (.record r.kind) i items items' →
      (∀ item ∈ items, item.DistinctKeys) → ∀ d,
      (r.fillInOrder (r.kind.fields.drop i) (items.map (⟨depth, ·⟩)) d).toOption =
        (r.fillInOrder (r.kind.fields.drop i) (items'.map (⟨depth, ·⟩)) d).toOption
  | _, _, _, .nil, _, _ => rfl
  | i, item :: items, item' :: items', .cons head tail, hkeys, d => by
    have hfield : (r.kind.fields.drop i).head? = r.kind.fields[i]? := List.head?_drop
    have hrest : (r.kind.fields.drop i).tail = r.kind.fields.drop (i + 1) := List.tail_drop
    cases hfields : r.kind.fields.drop i with
    | nil => rfl
    | cons field fields =>
      rw [hfields] at hfield hrest
      have hhead : item.Variant (.ofField r.kind field) item' := by
        rwa [Role.item, ← hfield] at head
      have htail := hput.toOption_fillInOrder_eq h depth tail fun x hx =>
        hkeys x (List.mem_cons_of_mem _ hx)
      rw [← hrest] at htail
      rw [List.map_cons, List.map_cons, fillInOrder, fillInOrder, toOption_bind, toOption_bind,
        hput.toOption_put_eq h (hkeys item List.mem_cons_self) hhead]
      exact Option.bind_congr fun d _ => htail d

/-- A record is read alike from an object and from the list of its fields, if its fields are. -/
theorem PutsAlike.readRecord (hput : r.PutsAlike) (h : r.Fieldwise take) :
    ReadsAlike (.record r.kind) (Spot.readRecord r) := by
  intro depth v v' hkeys hvariant
  cases depth with
  | zero => cases hvariant <;> rfl
  | succ depth =>
    cases hvariant with
    | same => rfl
    | obj hchanged hextra hperm =>
      exact toOption_readPairs_of_fill_eq (hput.toOption_fill_eq h hkeys hchanged hextra hperm depth)
    | @arr _ items items' hitems =>
      have hfill := hput.toOption_fillInOrder_eq h depth hitems (fun item hitem => hkeys.item hitem)
        r.draft
      have hlength : (items.map (Spot.mk depth)).length = (items'.map (Spot.mk depth)).length := by
        rw [List.length_map, List.length_map, hitems.length_eq]
      rw [List.drop_zero] at hfill
      dsimp only [Spot.readRecord, enter]
      rw [readFields, readFields, toOption_bind, toOption_bind, hfill, hlength]

end RecordReader

end Redeclare
