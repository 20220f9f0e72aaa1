import Mathlib.Data.List.Forall2
import Mathlib.Tactic.SplitIfs
import Redeclare.Json.Raw
import Redeclare.Proofs.Json.RoundTrip

/-!
# Raw values and values

A text that is read as a value is a well-formed text whose raw value has one:
reading is passing over the text, and then settling what has been found.

* `Raw.Part` are the raw values that stand in a raw value.  `Raw.IsWhole` and
  `Raw.DistinctKeys` are about all of them, and `Raw.nesting` counts how deep
  they stand.
* `Raw.exists_settle?_iff` says which raw values have a value, `Raw.Fits`.
* `Raw.parseValue_settle` is the induction over the steps of both readers, and
  `Json.read_eq_settle` the case of a whole text.
-/

namespace Redeclare.Json

/-- A value without parts. -/
def IsScalar : Json → Prop
  | .arr _ | .obj _ => False
  | _ => True

namespace Raw

/-! ## Parts -/

/-- A raw value that stands in another one: the value itself, or a part of an item or a member. -/
inductive Part : Raw → Raw → Prop where
  | here {v : Raw} : Part v v
  | item {items : List Raw} {item part : Raw} (hitem : item ∈ items) (h : Part item part) :
      Part (.arr items) part
  | member {members : List (String × Raw)} {e : String × Raw} {part : Raw} (he : e ∈ members)
      (h : Part e.2 part) : Part (.obj members) part

/-- No object in the raw value has two members with one key. -/
def DistinctKeys (v : Raw) : Prop :=
  ∀ members, v.Part (.obj members) → (members.map Prod.fst).Nodup

theorem DistinctKeys.item {items : List Raw} (h : DistinctKeys (.arr items)) {item : Raw}
    (hitem : item ∈ items) : item.DistinctKeys :=
  fun members hpart => h members (.item hitem hpart)

theorem DistinctKeys.member {members : List (String × Raw)} (h : DistinctKeys (.obj members))
    {e : String × Raw} (he : e ∈ members) : e.2.DistinctKeys :=
  fun members' hpart => h members' (.member he hpart)

/-- Every part has a value. -/
def IsWhole (v : Raw) : Prop :=
  ¬ v.Part .valueless

theorem isWhole_arr_iff {items : List Raw} : IsWhole (.arr items) ↔ ∀ item ∈ items, item.IsWhole := by
  refine ⟨fun h item hitem hpart => h (.item hitem hpart), fun h hpart => ?_⟩
  cases hpart with
  | item hitem hpart => exact h _ hitem hpart

theorem isWhole_obj_iff {members : List (String × Raw)} :
    IsWhole (.obj members) ↔ ∀ e ∈ members, e.2.IsWhole := by
  refine ⟨fun h e he hpart => h (.member he hpart), fun h hpart => ?_⟩
  cases hpart with
  | member he hpart => exact h _ he hpart

mutual

/-- How deep arrays and objects nest in a raw value, as far as it has a value. -/
def nesting : Raw → Nat
  | .arr items => nestingItems items + 1
  | .obj members => nestingMembers members + 1
  | _ => 0

/-- The greatest depth among items. -/
def nestingItems : List Raw → Nat
  | [] => 0
  | item :: items => max (nesting item) (nestingItems items)

/-- The greatest depth among members. -/
def nestingMembers : List (String × Raw) → Nat
  | [] => 0
  | (_, value) :: members => max (nesting value) (nestingMembers members)

end

theorem nestingItems_le_iff {depth : Nat} {items : List Raw} :
    nestingItems items ≤ depth ↔ ∀ item ∈ items, item.nesting ≤ depth := by
  induction items with
  | nil => simp [nestingItems]
  | cons item items ih => rw [nestingItems, Nat.max_le, ih, List.forall_mem_cons]

theorem nestingMembers_le_iff {depth : Nat} {members : List (String × Raw)} :
    nestingMembers members ≤ depth ↔ ∀ e ∈ members, e.2.nesting ≤ depth := by
  induction members with
  | nil => simp [nestingMembers]
  | cons e members ih => rw [nestingMembers, Nat.max_le, ih, List.forall_mem_cons]

/-- A raw value that has a value where arrays and objects may nest `depth` deep. -/
@[mk_iff]
structure Fits (depth : Nat) (v : Raw) : Prop where
  nesting_le : v.nesting ≤ depth
  isWhole : v.IsWhole

theorem fits_arr_iff {depth : Nat} {items : List Raw} :
    Fits (depth + 1) (.arr items) ↔ ∀ item ∈ items, item.Fits depth := by
  simp only [fits_iff, nesting, Nat.add_le_add_iff_right, nestingItems_le_iff, isWhole_arr_iff,
    imp_and, forall_and]

theorem fits_obj_iff {depth : Nat} {members : List (String × Raw)} :
    Fits (depth + 1) (.obj members) ↔ ∀ e ∈ members, e.2.Fits depth := by
  simp only [fits_iff, nesting, Nat.add_le_add_iff_right, nestingMembers_le_iff, isWhole_obj_iff,
    imp_and, forall_and]

theorem not_fits_zero_arr (items : List Raw) : ¬ Fits 0 (.arr items) :=
  fun h => Nat.not_succ_le_zero _ h.nesting_le

theorem not_fits_zero_obj (members : List (String × Raw)) : ¬ Fits 0 (.obj members) :=
  fun h => Nat.not_succ_le_zero _ h.nesting_le

/-! ## Values -/

theorem settleItems?_eq_some_iff {depth : Nat} {items : List Raw} {vs : List Json} :
    settleItems? depth items = some vs ↔
      List.Forall₂ (fun item v => item.settle? depth = some v) items vs := by
  induction items generalizing vs with
  | nil => rw [settleItems?, List.forall₂_nil_left_iff, Option.some.injEq, eq_comm]
  | cons item items ih =>
    rw [settleItems?, Option.bind_eq_some_iff, List.forall₂_cons_left_iff]
    simp only [Option.map_eq_some_iff, ih]
    constructor
    · rintro ⟨v, hv, vs', hvs, rfl⟩
      exact ⟨v, vs', hv, hvs, rfl⟩
    · rintro ⟨v, vs', hv, hvs, rfl⟩
      exact ⟨v, hv, vs', hvs, rfl⟩

theorem settleMembers?_eq_some_iff {depth : Nat} {members : List (String × Raw)}
    {vs : List (String × Json)} : settleMembers? depth members = some vs ↔
      List.Forall₂ (fun e e' => e.1 = e'.1 ∧ e.2.settle? depth = some e'.2) members vs := by
  induction members generalizing vs with
  | nil => rw [settleMembers?, List.forall₂_nil_left_iff, Option.some.injEq, eq_comm]
  | cons e members ih =>
    obtain ⟨key, value⟩ := e
    rw [settleMembers?, Option.bind_eq_some_iff, List.forall₂_cons_left_iff]
    simp only [Option.map_eq_some_iff, ih]
    constructor
    · rintro ⟨v, hv, vs', hvs, rfl⟩
      exact ⟨(key, v), vs', ⟨rfl, hv⟩, hvs, rfl⟩
    · rintro ⟨⟨key', v⟩, vs', ⟨hkey, hv⟩, hvs, rfl⟩
      obtain rfl : key = key' := hkey
      exact ⟨v, hv, vs', hvs, rfl⟩

theorem settle?_ofScalar {v : Json} (h : v.IsScalar) (depth : Nat) :
    (ofScalar v).settle? depth = some v := by
  cases v with
  | arr items => exact h.elim
  | obj members => exact h.elim
  | _ => simp [ofScalar, settle?]

theorem settleMembers?_append (depth : Nat) (members members' : List (String × Raw)) :
    settleMembers? depth (members ++ members') = (settleMembers? depth members).bind fun vs =>
      (settleMembers? depth members').map (vs ++ ·) := by
  induction members with
  | nil => simp [settleMembers?]
  | cons e members ih =>
    simp [settleMembers?, ih, Option.bind_assoc, Option.map_bind, Option.bind_map, Function.comp_def]

/-- What a raw value with this value looks like. -/
inductive Settled : Nat → Raw → Json → Prop where
  | null {depth : Nat} : Settled depth .null .null
  | bool {depth : Nat} (b : Bool) : Settled depth (.bool b) (.bool b)
  | int {depth : Nat} (n : Int) : Settled depth (.int n) (.int n)
  | float {depth : Nat} (x : Text.Binary64) : Settled depth (.float x) (.float x)
  | str {depth : Nat} (s : String) : Settled depth (.str s) (.str s)
  | arr {depth : Nat} {items : List Raw} {vs : List Json}
      (h : List.Forall₂ (fun item v => item.settle? depth = some v) items vs) :
      Settled (depth + 1) (.arr items) (.arr vs)
  | obj {depth : Nat} {members : List (String × Raw)} {vs : List (String × Json)}
      (h : List.Forall₂ (fun e e' => e.1 = e'.1 ∧ e.2.settle? depth = some e'.2) members vs) :
      Settled (depth + 1) (.obj members) (.obj vs)

theorem settled_of_settle? {depth : Nat} {raw : Raw} {v : Json} (h : raw.settle? depth = some v) :
    Settled depth raw v := by
  cases raw with
  | arr items =>
    cases depth with
    | zero => simp [settle?] at h
    | succ depth =>
      obtain ⟨vs, hvs, rfl⟩ := Option.map_eq_some_iff.mp h
      exact .arr (settleItems?_eq_some_iff.mp hvs)
  | obj members =>
    cases depth with
    | zero => simp [settle?] at h
    | succ depth =>
      obtain ⟨vs, hvs, rfl⟩ := Option.map_eq_some_iff.mp h
      exact .obj (settleMembers?_eq_some_iff.mp hvs)
  | valueless => simp [settle?] at h
  | _ =>
    simp only [settle?, Option.some.injEq] at h
    subst h
    constructor

theorem isSome_bind_map_iff {α β γ : Type} {x : Option α} {y : Option β} {f : α → β → γ} :
    (x.bind fun a => y.map (f a)).isSome ↔ x.isSome ∧ y.isSome := by
  cases x <;> simp

mutual

theorem isSome_settle?_iff {depth : Nat} : ∀ v : Raw, (v.settle? depth).isSome ↔ v.Fits depth
  | .null | .bool _ | .int _ | .float _ | .str _ => by
    simp only [settle?, Option.isSome_some, true_iff]
    exact ⟨Nat.zero_le _, fun hpart => by cases hpart⟩
  | .valueless => by
    simp only [settle?, Option.isSome_none, Bool.false_eq_true, false_iff]
    exact fun h => h.isWhole .here
  | .arr items => by
    cases depth with
    | zero => exact iff_of_false (by simp [settle?]) (not_fits_zero_arr items)
    | succ depth =>
      rw [settle?, Option.isSome_map, isSome_settleItems?_iff items, fits_arr_iff]
  | .obj members => by
    cases depth with
    | zero => exact iff_of_false (by simp [settle?]) (not_fits_zero_obj members)
    | succ depth =>
      rw [settle?, Option.isSome_map, isSome_settleMembers?_iff members, fits_obj_iff]

theorem isSome_settleItems?_iff {depth : Nat} : ∀ items : List Raw,
    (settleItems? depth items).isSome ↔ ∀ item ∈ items, item.Fits depth
  | [] => by simp [settleItems?]
  | item :: items => by
    rw [settleItems?, isSome_bind_map_iff, isSome_settle?_iff item, isSome_settleItems?_iff items,
      List.forall_mem_cons]

theorem isSome_settleMembers?_iff {depth : Nat} : ∀ members : List (String × Raw),
    (settleMembers? depth members).isSome ↔ ∀ e ∈ members, e.2.Fits depth
  | [] => by simp [settleMembers?]
  | (key, v) :: members => by
    rw [settleMembers?, isSome_bind_map_iff, isSome_settle?_iff v, isSome_settleMembers?_iff members,
      List.forall_mem_cons]

end

/-- The raw values that have a value. -/
theorem exists_settle?_iff {depth : Nat} {v : Raw} :
    (∃ w, v.settle? depth = some w) ↔ v.Fits depth := by
  rw [← isSome_settle?_iff, Option.isSome_iff_exists]

end Raw

/-! ## Scalars -/

/-- What is read at the start of a text, if anything is, has no parts. -/
def FindsScalar (found : Option (Json × List Char)) : Prop :=
  ∀ p ∈ found, p.1.IsScalar

theorem findsScalar_none : FindsScalar none :=
  fun _ h => nomatch h

theorem findsScalar_some {v : Json} (h : v.IsScalar) (rest : List Char) :
    FindsScalar (some (v, rest)) :=
  fun _ hp => Option.some.inj hp ▸ h

theorem findsScalar_map {α : Type} {f : α → Json × List Char} (h : ∀ a, (f a).1.IsScalar)
    (found : Option α) : FindsScalar (found.map f) := by
  intro p hp
  obtain ⟨a, -, rfl⟩ := Option.map_eq_some_iff.mp hp
  exact h a

theorem findsScalar_float? (negative : Bool) (significand : Nat) (exponent : Int) (rest : List Char) :
    FindsScalar ((float? negative significand exponent).map (·, rest)) := by
  fun_cases float? negative significand exponent
  · exact findsScalar_some (by trivial) rest
  · exact findsScalar_none

theorem findsScalar_readExponent (negative : Bool) (significand : Nat) (exponent : Int)
    (cs : List Char) : FindsScalar (readExponent negative significand exponent cs) := by
  fun_cases readExponent negative significand exponent cs
  · exact findsScalar_none
  · exact findsScalar_none
  · exact findsScalar_some (by trivial) _
  · exact findsScalar_float? _ _ _ _

theorem findsScalar_readScaled (negative : Bool) (significand : Nat) (exponent : Int)
    (cs : List Char) : FindsScalar (readScaled negative significand exponent cs) := by
  fun_cases readScaled negative significand exponent cs
  · exact findsScalar_readExponent _ _ _ _
  · exact findsScalar_readExponent _ _ _ _
  · exact findsScalar_float? _ _ _ _

theorem findsScalar_readFraction (negative : Bool) (significand : Nat) (exponent : Int)
    (cs : List Char) : FindsScalar (readFraction negative significand exponent cs) := by
  fun_cases readFraction negative significand exponent cs
  · exact findsScalar_none
  · exact findsScalar_readScaled _ _ _ _

theorem findsScalar_readNumber (negative : Bool) (cs : List Char) :
    FindsScalar (readNumber negative cs) := by
  cases cs with
  | nil => exact findsScalar_none
  | cons c cs =>
    rw [readNumber.eq_def]
    dsimp only
    split
    · exact findsScalar_none
    · split
      · exact findsScalar_readFraction _ _ _ _
      · exact findsScalar_readExponent _ _ _ _
      · exact findsScalar_readExponent _ _ _ _
      · split_ifs
        · exact findsScalar_some (by trivial) _
        · exact findsScalar_some (by trivial) _
        · exact findsScalar_float? _ _ _ _

/-- What is neither an array nor an object has no parts, and the depth makes no difference. -/
theorem parseValue_of_head {cs : List Char} (harr : ∀ ds, skipSpace cs ≠ '[' :: ds)
    (hobj : ∀ ds, skipSpace cs ≠ '\x7b' :: ds) (depth fuel : Nat) :
    parseValue depth (fuel + 1) cs = parseValue 0 1 cs ∧ FindsScalar (parseValue 0 1 cs) := by
  rw [parseValue, parseValue]
  split
  case h_6 h => exact absurd h (harr _)
  case h_7 h => exact absurd h (hobj _)
  case h_5 | h_8 => exact ⟨rfl, findsScalar_readNumber _ _⟩
  all_goals
    refine ⟨rfl, findsScalar_map (fun _ => ?_) _⟩
    trivial

/-- What is neither an array nor an object is found by both readers, or has no value. -/
theorem parseValue_eq_parseScalar {cs : List Char} (harr : ∀ ds, skipSpace cs ≠ '[' :: ds)
    (hobj : ∀ ds, skipSpace cs ≠ '\x7b' :: ds) (depth fuel : Nat) : parseValue depth (fuel + 1) cs =
      (Raw.parseScalar cs).bind fun p => (p.1.settle? depth).map (·, p.2) := by
  obtain ⟨hsame, hscalar⟩ := parseValue_of_head harr hobj depth fuel
  rw [hsame, Raw.parseScalar]
  cases hparse : parseValue 0 1 cs with
  | some p =>
    obtain ⟨v, rest⟩ := p
    have hv : v.IsScalar := hscalar (v, rest) hparse
    rw [Option.bind_some, Raw.settle?_ofScalar hv]
    rfl
  | none =>
    cases passScalar (skipSpace cs) with
    | none => rfl
    | some rest => rw [Option.map_some, Option.bind_some, Raw.settle?]; rfl

/-! ## Texts -/

namespace Raw

theorem settle?_ofMembers (depth : Nat) (members : Option (List (String × Raw))) :
    (ofMembers members).settle? (depth + 1) =
      (members.bind (settleMembers? depth)).map .obj := by
  cases members with
  | none => rw [ofMembers, settle?]; rfl
  | some members => rw [ofMembers, settle?]; rfl

theorem settle?_zero_ofMembers (members : Option (List (String × Raw))) :
    (ofMembers members).settle? 0 = none := by
  cases members <;> simp [ofMembers, settle?]

theorem parseScalar_skipSpace (cs : List Char) : parseScalar (skipSpace cs) = parseScalar cs := by
  rw [parseScalar, parseScalar, parseValue_skipSpace, skipSpace_skipSpace]

theorem readKey_eq_passKey (cs : List Char) :
    readKey cs = (passKey cs).bind fun p => p.1.map (·, p.2) := by
  unfold passKey
  cases readKey cs with
  | some p => rfl
  | none =>
    dsimp only
    split
    · split
      · rfl
      · split <;> rfl
    · rfl

mutual

theorem parseValue_settle : ∀ (fuel depth : Nat) (cs : List Char), Json.parseValue depth fuel cs =
    (parseValue fuel cs).bind fun p => (p.1.settle? depth).map (·, p.2)
  | 0, _, _ => rfl
  | fuel + 1, depth, cs => by
    rw [parseValue, ← Json.parseValue_skipSpace]
    split
    · rename_i ds harr
      rw [harr]
      cases depth with
      | zero =>
        split
        · rfl
        · cases parseItems fuel _ <;> rfl
      | succ depth =>
        rw [parseValue_bracket]
        simp only [parseItems_settle fuel depth]
        generalize skipSpace ds = es
        split
        · rfl
        · simp only [Option.map_bind, Option.bind_map, Option.map_map, Function.comp_def, settle?]
    · rename_i ds hobj
      rw [hobj]
      cases depth with
      | zero =>
        split
        · rfl
        · cases parseMembers fuel _ with
          | none => rfl
          | some p => simp [settle?_zero_ofMembers, Json.parseValue, skipSpace]
      | succ depth =>
        rw [parseValue_brace]
        simp only [parseMembers_settle fuel depth]
        generalize skipSpace ds = es
        split
        · rfl
        · simp only [Option.map_bind, Option.bind_map, Option.map_map, Function.comp_def, settle?_ofMembers]
    · rename_i harr hobj
      rw [Json.parseValue_skipSpace, parseValue_eq_parseScalar harr hobj, parseScalar_skipSpace]

theorem parseItems_settle : ∀ (fuel depth : Nat) (cs : List Char), Json.parseItems depth fuel cs =
    (parseItems fuel cs).bind fun p => (settleItems? depth p.1).map (·, p.2)
  | 0, _, _ => rfl
  | fuel + 1, depth, cs => by
    rw [Json.parseItems, parseItems, parseValue_settle fuel depth cs]
    cases parseValue fuel cs with
    | none => rfl
    | some p =>
      obtain ⟨item, cs⟩ := p
      simp only [parseItems_settle fuel depth, Option.bind_some]
      cases hitem : item.settle? depth with
      | none =>
        simp only [Option.map_none]
        generalize skipSpace cs = ds
        split
        · simp [settleItems?, hitem]
        · simp [settleItems?, hitem, Option.bind_map]
        · rfl
      | some v =>
        simp only [Option.map_some]
        generalize skipSpace cs = ds
        split
        · simp [settleItems?, hitem]
        · simp [settleItems?, hitem, Function.comp_def, Option.map_bind, Option.bind_map]
        · simp

theorem parseMembers_settle : ∀ (fuel depth : Nat) (cs : List Char),
    Json.parseMembers depth fuel cs =
      (parseMembers fuel cs).bind fun p => (p.1.bind (settleMembers? depth)).map (·, p.2)
  | 0, _, _ => rfl
  | fuel + 1, depth, cs => by
    rw [Json.parseMembers, parseMembers, readKey_eq_passKey]
    cases passKey (skipSpace cs) with
    | none => rfl
    | some p =>
      obtain ⟨_ | key, cs⟩ := p
      · -- a key without a value: the object has none
        dsimp only [Option.bind_some, Option.map_none]
        cases parseValue fuel cs with
        | none => rfl
        | some p =>
          dsimp only
          split
          · rfl
          · simp [Option.bind_map]
          · rfl
      · dsimp only [Option.bind_some, Option.map_some]
        rw [parseValue_settle fuel depth cs]
        cases parseValue fuel cs with
        | none => rfl
        | some p =>
          obtain ⟨value, cs⟩ := p
          simp only [parseMembers_settle fuel depth, Option.bind_some]
          cases hvalue : value.settle? depth with
          | none =>
            simp only [Option.map_none]
            generalize skipSpace cs = ds
            split
            · simp [settleMembers?, hvalue]
            · simp [settleMembers?, hvalue, Option.bind_map]
            · rfl
          | some v =>
            simp only [Option.map_some]
            generalize skipSpace cs = ds
            split
            · simp [settleMembers?, hvalue]
            · simp [settleMembers?, hvalue, Function.comp_def, Option.map_bind, Option.bind_map]
            · simp

end

end Raw

/-- A text is read as the value of its raw value. -/
theorem read_eq_settle (text : String) : read text = (Raw.read text).bind (Raw.settle? maxDepth) := by
  rw [read, Raw.read, Raw.parseValue_settle]
  cases Raw.parseValue (fuelFor text.toList) text.toList with
  | none => rfl
  | some p =>
    obtain ⟨v, rest⟩ := p
    by_cases hrest : skipSpace rest = [] <;>
      cases hv : v.settle? maxDepth <;> simp [hrest, hv]

/-- The raw values that the texts with a value consist of. -/
theorem exists_read_eq_some_iff {text : String} {v : Raw} (h : Raw.read text = some v) :
    (∃ w, read text = some w) ↔ v.Fits maxDepth := by
  rw [read_eq_settle, h, Option.bind_some, Raw.exists_settle?_iff]

end Redeclare.Json
