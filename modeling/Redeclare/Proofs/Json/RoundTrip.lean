import Redeclare.Proofs.Json.Scalars

/-!
# Written JSON reads back

A value whose numbers are integers of 64 bits and whose arrays and objects nest
no deeper than a reader goes is read from either of its layouts as itself.

* `skipSpace_lineBreak` and `parseValue_lineBreak` are all that a reader does
  with a layout: it passes the breaks.
* `parseValue_writeAt` is the induction over the value.  The text behind the
  value is arbitrary as far as it cannot go on with a number, and the fuel is
  measured by the length of what is written.
* `read_write` is the case of a whole text.
-/

namespace Redeclare.Json

open Text

/-! ## Values that read back -/

mutual

/-- How deep arrays and objects nest in a value; a scalar has no depth. -/
def nesting : Json → Nat
  | .arr items => nestingItems items + 1
  | .obj members => nestingMembers members + 1
  | _ => 0

/-- The greatest depth among items. -/
def nestingItems : List Json → Nat
  | [] => 0
  | item :: items => max (nesting item) (nestingItems items)

/-- The greatest depth among members. -/
def nestingMembers : List (String × Json) → Nat
  | [] => 0
  | (_, value) :: members => max (nesting value) (nestingMembers members)

end

mutual

/-- Every number of a value is an integer of 64 bits, with or without sign. -/
def Exact : Json → Prop
  | .int n => -0x8000000000000000 ≤ n ∧ n < 0x10000000000000000
  | .float _ => False
  | .arr items => ExactItems items
  | .obj members => ExactMembers members
  | _ => True

/-- Every number of the items is an integer of 64 bits. -/
def ExactItems : List Json → Prop
  | [] => True
  | item :: items => Exact item ∧ ExactItems items

/-- Every number of the members is an integer of 64 bits. -/
def ExactMembers : List (String × Json) → Prop
  | [] => True
  | (_, value) :: members => Exact value ∧ ExactMembers members

end

/-! ## Breaks -/

theorem skipSpace_skipSpace (cs : List Char) : skipSpace (skipSpace cs) = skipSpace cs := by
  fun_induction skipSpace cs with
  | case1 cs ih => exact ih
  | case2 cs ih => exact ih
  | case3 cs ih => exact ih
  | case4 cs ih => exact ih
  | case5 cs h1 h2 h3 h4 => rw [skipSpace.eq_def]; split <;> simp_all

theorem skipSpace_replicate (n : Nat) (cs : List Char) :
    skipSpace (List.replicate n ' ' ++ cs) = skipSpace cs := by
  induction n with
  | zero => rfl
  | succ n ih => rw [List.replicate_succ, List.cons_append, skipSpace, ih]

/-- The break before an item is white space. -/
theorem skipSpace_lineBreak (layout : Layout) (level : Nat) (cs : List Char) :
    skipSpace (layout.lineBreak level ++ cs) = skipSpace cs := by
  cases layout with
  | compact => rfl
  | pretty => rw [Layout.lineBreak, List.cons_append, skipSpace, skipSpace_replicate]

theorem parseValue_skipSpace (depth fuel : Nat) (cs : List Char) :
    parseValue depth fuel (skipSpace cs) = parseValue depth fuel cs := by
  cases fuel with
  | zero => rfl
  | succ fuel => rw [parseValue, parseValue, skipSpace_skipSpace]

theorem parseValue_lineBreak (layout : Layout) (level depth fuel : Nat) (cs : List Char) :
    parseValue depth fuel (layout.lineBreak level ++ cs) = parseValue depth fuel cs := by
  rw [← parseValue_skipSpace, skipSpace_lineBreak, parseValue_skipSpace]

theorem parseItems_skipSpace (depth fuel : Nat) (cs : List Char) :
    parseItems depth fuel (skipSpace cs) = parseItems depth fuel cs := by
  cases fuel with
  | zero => rfl
  | succ fuel => rw [parseItems, parseItems, parseValue_skipSpace]

theorem parseItems_bracket (depth fuel : Nat) (cs : List Char) :
    parseItems depth fuel (']' :: cs) = none := by
  cases fuel with
  | zero => rfl
  | succ fuel => cases fuel <;> rfl

theorem parseMembers_skipSpace (depth fuel : Nat) (cs : List Char) :
    parseMembers depth fuel (skipSpace cs) = parseMembers depth fuel cs := by
  cases fuel with
  | zero => rfl
  | succ fuel => rw [parseMembers, parseMembers, skipSpace_skipSpace]

theorem parseMembers_brace (depth fuel : Nat) (cs : List Char) :
    parseMembers depth fuel ('\x7d' :: cs) = none := by
  cases fuel <;> rfl

theorem parseValue_colon (layout : Layout) (depth fuel : Nat) (cs : List Char) :
    parseValue depth fuel (layout.colon.drop 1 ++ cs) = parseValue depth fuel cs := by
  cases layout with
  | compact => rfl
  | pretty =>
    rw [← parseValue_skipSpace, ← parseValue_skipSpace depth fuel cs]
    rfl

/-- What a break, or a character that ends a value, leaves behind cannot go on with a number. -/
theorem follows_lineBreak {layout : Layout} {level : Nat} {cs : List Char} (h : Follows cs) :
    Follows (layout.lineBreak level ++ cs) := by
  cases layout with
  | compact => exact h
  | pretty => exact follows_cons (by simp)

/-! ## Values -/

/-- A text that starts with a digit is read as a number. -/
theorem parseValue_of_digit {c : Char} (hc : isDecimalDigit c = true) (depth fuel : Nat)
    (cs : List Char) : parseValue depth (fuel + 1) (c :: cs) = readNumber false (c :: cs) := by
  have hother : ∀ {d : Char} {ds : List Char}, c :: cs = d :: ds → isDecimalDigit d = true := by
    rintro d ds heq
    exact (List.cons.inj heq).1 ▸ hc
  have hskip : skipSpace (c :: cs) = c :: cs := by
    rw [skipSpace.eq_def]
    split
    case h_5 => rfl
    all_goals exact absurd (hother ‹_›) (by decide)
  rw [parseValue, hskip]
  split
  case h_8 => rfl
  all_goals exact absurd (hother ‹_›) (by decide)

theorem parseValue_int {n : Int} (hn : Exact (.int n)) (depth fuel : Nat) {rest : List Char}
    (hrest : Follows rest) :
    parseValue depth (fuel + 1) ((toString n).toList ++ rest) = some (.int n, rest) := by
  obtain ⟨hlow, hhigh⟩ := hn
  cases n with
  | ofNat m =>
    have hm : m ≤ maxUnsigned := by
      have hmax : maxUnsigned = 0xffffffffffffffff := rfl
      simp only [Int.ofNat_eq_natCast] at hhigh
      omega
    have hread := readNumber_toDigits hm hrest false (by simp)
    rw [toList_toString_ofNat]
    obtain ⟨c, cs, hdigits, hc⟩ := exists_toDigits_eq_cons m
    rw [hdigits, List.cons_append] at hread ⊢
    rw [parseValue_of_digit hc, hread]
    rfl
  | negSucc m =>
    have hm : m + 1 ≤ 0x8000000000000000 := by omega
    have hmax : m + 1 ≤ maxUnsigned := Nat.le_trans hm (by decide)
    have hread := readNumber_toDigits hmax hrest true fun _ => ⟨Nat.succ_pos m, hm⟩
    rw [toList_toString_negSucc, List.cons_append, parseValue]
    exact hread

theorem parseValue_quote (depth fuel : Nat) (cs : List Char) :
    parseValue depth (fuel + 1) ('"' :: cs) =
      (readString [] cs).map fun (s, rest) => (.str s, rest) := rfl

theorem parseValue_bracket (depth fuel : Nat) (cs : List Char) :
    parseValue (depth + 1) (fuel + 1) ('[' :: cs) =
      match skipSpace cs with
      | ']' :: cs => some (.arr [], cs)
      | cs => (parseItems depth fuel cs).map fun (items, rest) => (.arr items, rest) := rfl

theorem parseValue_brace (depth fuel : Nat) (cs : List Char) :
    parseValue (depth + 1) (fuel + 1) ('\x7b' :: cs) =
      match skipSpace cs with
      | '\x7d' :: cs => some (.obj [], cs)
      | cs => (parseMembers depth fuel cs).map fun (members, rest) => (.obj members, rest) := rfl

/-- An array that reads as items is not the empty one: the closing bracket starts no item. -/
theorem parseValue_array {depth fuel : Nat} {cs rest : List Char} {items : List Json}
    (h : parseItems depth fuel cs = some (items, rest)) :
    parseValue (depth + 1) (fuel + 1) ('[' :: cs) = some (.arr items, rest) := by
  rw [← parseItems_skipSpace] at h
  rw [parseValue_bracket]
  split
  · rename_i cs' hempty
    rw [hempty, parseItems_bracket] at h
    exact absurd h (by simp)
  · rw [h]
    rfl

theorem parseValue_object {depth fuel : Nat} {cs rest : List Char}
    {members : List (String × Json)} (h : parseMembers depth fuel cs = some (members, rest)) :
    parseValue (depth + 1) (fuel + 1) ('\x7b' :: cs) = some (.obj members, rest) := by
  rw [← parseMembers_skipSpace] at h
  rw [parseValue_brace]
  split
  · rename_i cs' hempty
    rw [hempty, parseMembers_brace] at h
    exact absurd h (by simp)
  · rw [h]
    rfl

theorem skipSpace_writeString (key : String) (cs : List Char) :
    skipSpace (writeString key ++ cs) = writeString key ++ cs := rfl

/-- A written key is read with its colon. -/
theorem readKey_writeString (layout : Layout) (key : String) (cs : List Char) :
    readKey (writeString key ++ (layout.colon ++ cs)) = some (key, layout.colon.drop 1 ++ cs) := by
  have htext : writeString key ++ (layout.colon ++ cs) =
      '"' :: (key.toList.flatMap writeChar ++ '"' :: (layout.colon ++ cs)) := by
    simp [writeString]
  rw [htext, readKey]
  rw [readString_writeString]
  cases layout <;> rfl

theorem skipSpace_writeItems (layout : Layout) (level : Nat) (item : Json) (items : List Json)
    (cs : List Char) : skipSpace (writeItems layout level (item :: items) ++ cs) =
      ',' :: ((writeItems layout level (item :: items)).drop 1 ++ cs) := rfl

theorem skipSpace_writeMembers (layout : Layout) (level : Nat) (member : String × Json)
    (members : List (String × Json)) (cs : List Char) :
    skipSpace (writeMembers layout level (member :: members) ++ cs) =
      ',' :: ((writeMembers layout level (member :: members)).drop 1 ++ cs) := rfl

/-- Behind an item comes a comma, or the break before the closing bracket. -/
theorem follows_writeItems (layout : Layout) (level outer : Nat) (items : List Json)
    (rest : List Char) :
    Follows (writeItems layout level items ++ (layout.lineBreak outer ++ ']' :: rest)) := by
  cases items with
  | nil => exact follows_lineBreak (follows_cons (by simp))
  | cons item items => exact follows_cons (by simp)

theorem follows_writeMembers (layout : Layout) (level outer : Nat)
    (members : List (String × Json)) (rest : List Char) :
    Follows (writeMembers layout level members ++ (layout.lineBreak outer ++ '\x7d' :: rest)) := by
  cases members with
  | nil => exact follows_lineBreak (follows_cons (by simp))
  | cons member members => exact follows_cons (by simp)

-- The three inductions run over the value and count fuel by the text: two steps for each character,
-- as `fuelFor` grants them.  A text without its first comma is the text of the items themselves.
mutual

/-- A value reads back from its text, whatever text follows it that cannot go on with a number. -/
theorem parseValue_writeAt (layout : Layout) : (value : Json) → ∀ {level depth fuel : Nat}
    {rest : List Char}, Exact value → nesting value ≤ depth →
      2 * (writeAt layout level value).length < fuel → Follows rest →
        parseValue depth fuel (writeAt layout level value ++ rest) = some (value, rest)
  | value, level, depth, 0, rest, _, _, hfuel, _ => absurd hfuel (Nat.not_lt_zero _)
  | .null, _, _, _ + 1, _, _, _, _, _ => rfl
  | .bool true, _, _, _ + 1, _, _, _, _, _ => rfl
  | .bool false, _, _, _ + 1, _, _, _, _, _ => rfl
  | .int _, _, depth, fuel + 1, _, hn, _, _, hrest => parseValue_int hn depth fuel hrest
  | .float _, _, _, _ + 1, _, hx, _, _, _ => absurd hx id
  | .str s, _, _, _ + 1, rest, _, _, _, _ => by
    have htext : writeString s ++ rest = '"' :: (s.toList.flatMap writeChar ++ '"' :: rest) := by
      simp [writeString]
    rw [writeAt, htext, parseValue_quote, readString_writeString]
    rfl
  | .arr [], _, depth + 1, _ + 1, _, _, _, _, _ => rfl
  | .obj [], _, depth + 1, _ + 1, _, _, _, _, _ => rfl
  | .arr (item :: items), level, depth + 1, fuel + 1, rest, hexact, hdepth, hfuel, _ => by
    have htext : writeAt layout level (.arr (item :: items)) ++ rest =
        '[' :: ((writeItems layout (level + 1) (item :: items)).drop 1 ++
          (layout.lineBreak level ++ ']' :: rest)) := by
      simp [writeAt, writeItems]
    have hlength : (writeItems layout (level + 1) (item :: items)).length <
        (writeAt layout level (.arr (item :: items))).length := by
      simp [writeAt, writeItems]
    rw [htext]
    exact parseValue_array (parseItems_writeItems layout (item :: items) (by simp) hexact
      (Nat.le_of_succ_le_succ hdepth) (by omega))
  | .obj (member :: members), level, depth + 1, fuel + 1, rest, hexact, hdepth, hfuel, _ => by
    have htext : writeAt layout level (.obj (member :: members)) ++ rest =
        '\x7b' :: ((writeMembers layout (level + 1) (member :: members)).drop 1 ++
          (layout.lineBreak level ++ '\x7d' :: rest)) := by
      simp [writeAt, writeMembers]
    have hlength : (writeMembers layout (level + 1) (member :: members)).length <
        (writeAt layout level (.obj (member :: members))).length := by
      simp [writeAt, writeMembers]
    rw [htext]
    exact parseValue_object (parseMembers_writeMembers layout (member :: members) (by simp) hexact
      (Nat.le_of_succ_le_succ hdepth) (by omega))

/-- The items of an array read back, without the comma before the first. -/
theorem parseItems_writeItems (layout : Layout) : (items : List Json) →
    ∀ {level outer depth fuel : Nat} {rest : List Char}, items ≠ [] → ExactItems items →
      nestingItems items ≤ depth → 2 * (writeItems layout level items).length ≤ fuel →
        parseItems depth fuel
          ((writeItems layout level items).drop 1 ++ (layout.lineBreak outer ++ ']' :: rest)) =
            some (items, rest)
  | [], _, _, _, _, _, hne, _, _, _ => absurd rfl hne
  | _ :: _, _, _, _, 0, _, _, _, _, hfuel => absurd hfuel (by simp [writeItems])
  | item :: items, level, outer, depth, fuel + 1, rest, _, ⟨hitem, hitems⟩, hdepth, hfuel => by
    obtain ⟨hitemDepth, hitemsDepth⟩ := Nat.max_le.mp hdepth
    simp only [writeItems, List.length_cons, List.length_append] at hfuel
    rw [writeItems, List.cons_append, List.cons_append, List.drop_one, List.tail_cons,
      List.append_assoc, List.append_assoc, parseItems, parseValue_lineBreak,
      parseValue_writeAt layout item hitem hitemDepth (by omega)
        (follows_writeItems layout level outer items rest)]
    cases items with
    | nil =>
      dsimp only [writeItems, List.nil_append]
      rw [skipSpace_lineBreak]
      rfl
    | cons next items =>
      have htail := @parseItems_writeItems layout (next :: items) level outer depth fuel rest
        (by simp) hitems hitemsDepth (by omega)
      simp only [skipSpace_writeItems, htail]
      rfl

/-- The members of an object read back, without the comma before the first. -/
theorem parseMembers_writeMembers (layout : Layout) : (members : List (String × Json)) →
    ∀ {level outer depth fuel : Nat} {rest : List Char}, members ≠ [] → ExactMembers members →
      nestingMembers members ≤ depth → 2 * (writeMembers layout level members).length ≤ fuel →
        parseMembers depth fuel
          ((writeMembers layout level members).drop 1 ++
            (layout.lineBreak outer ++ '\x7d' :: rest)) = some (members, rest)
  | [], _, _, _, _, _, hne, _, _, _ => absurd rfl hne
  | _ :: _, _, _, _, 0, _, _, _, _, hfuel => absurd hfuel (by simp [writeMembers])
  | (key, value) :: members, level, outer, depth, fuel + 1, rest, _, ⟨hvalue, hmembers⟩, hdepth,
      hfuel => by
    obtain ⟨hvalueDepth, hmembersDepth⟩ := Nat.max_le.mp hdepth
    simp only [writeMembers, List.length_cons, List.length_append] at hfuel
    simp only [writeMembers, List.cons_append, List.append_assoc, List.drop_one, List.tail_cons]
    rw [parseMembers, skipSpace_lineBreak, skipSpace_writeString, readKey_writeString]
    dsimp only
    rw [parseValue_colon,
      parseValue_writeAt layout value hvalue hvalueDepth (by omega)
        (follows_writeMembers layout level outer members rest)]
    cases members with
    | nil =>
      dsimp only [writeMembers, List.nil_append]
      rw [skipSpace_lineBreak]
      rfl
    | cons next members =>
      have htail := @parseMembers_writeMembers layout (next :: members) level outer depth fuel rest
        (by simp) hmembers hmembersDepth (by omega)
      simp only [skipSpace_writeMembers, htail]
      rfl

end

/-- A written value is read as itself. -/
theorem read_write (layout : Layout) {value : Json} (hexact : Exact value)
    (hdepth : nesting value ≤ maxDepth) : read (write layout value) = some value := by
  have htext : (write layout value).toList = writeAt layout 0 value := String.toList_ofList
  have hparse : parseValue maxDepth (fuelFor (writeAt layout 0 value)) (writeAt layout 0 value ++ []) =
      some (value, []) :=
    parseValue_writeAt layout value hexact hdepth (by rw [fuelFor]; omega) follows_nil
  rw [List.append_nil] at hparse
  rw [read, htext]
  simp only [hparse]
  rfl

end Redeclare.Json
