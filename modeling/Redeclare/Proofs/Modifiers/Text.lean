import Mathlib.Tactic.SplitIfs
import Redeclare.Modifiers.Text
import Redeclare.Proofs.Text.Blank
import Redeclare.Proofs.Text.Numeral

/-!
# A written modifier set reads back

Every set of 16 bits is the union of what its written parts stand for, whether
its bits have names or not.

* `foldl_union_flags` recovers the named bits of a set from its flags, and
  `readPart_hexDigits` the others from their number.
* `map_readPart_parts` reads each written part as its set.
* `read_write` reads the whole text, whose parts are found again between the
  separators.
-/

namespace Redeclare

namespace Modifiers

open Text

/-! ## The parts of a set -/

theorem toNat_lt (m : Modifiers) : m.toNat < 0x10000 := m.bits.isLt

theorem ofNat_toNat (m : Modifiers) : ofNat m.toNat = m := by
  rw [ofNat, toNat, BitVec.ofNat_toNat, BitVec.setWidth_eq]

/-- A bit of a union is in one of the sets. -/
theorem getLsbD_foldl_union (sets : List Modifiers) (m : Modifiers) (i : Nat) :
    (sets.foldl union m).bits.getLsbD i = (m.bits.getLsbD i || sets.any (·.bits.getLsbD i)) := by
  induction sets generalizing m with
  | nil => simp
  | cons n sets ih => rw [List.foldl_cons, ih, getLsbD_union, List.any_cons, Bool.or_assoc]

theorem getLsbD_mask (f : Flag) (i : Nat) : f.mask.bits.getLsbD i = decide (i = f.position) := by
  have hlt : f.position < 16 := by cases f <;> decide
  rw [Flag.mask, BitVec.getLsbD_twoPow]
  grind

/-- The flags of a set, put together again, are its bits with a name. -/
theorem foldl_union_flags (m : Modifiers) :
    (m.flags.map Flag.mask).foldl union empty = m.truncate := by
  apply ext_bit
  intro i
  have hflags : (m.flags.map Flag.mask).any (·.bits.getLsbD i) =
      (m.bits.getLsbD i && (Flag.all.map Flag.mask).any (·.bits.getLsbD i)) := by
    have hflag : ∀ f : Flag, (m.has f && f.mask.bits.getLsbD i) =
        (m.bits.getLsbD i && f.mask.bits.getLsbD i) := by
      intro f
      rw [getLsbD_mask, has]
      by_cases hi : i = f.position <;> simp [hi]
    rw [flags, List.any_map, List.any_map, List.any_filter]
    simp only [Function.comp_apply, hflag]
    cases m.bits.getLsbD i <;> simp [Function.comp_def]
  have hnamed : named = (Flag.all.map Flag.mask).foldl union empty := by
    rw [List.foldl_map]; rfl
  rw [truncate, getLsbD_inter, hnamed, getLsbD_foldl_union, getLsbD_foldl_union, hflags]
  simp

theorem truncate_union_diff_named (m : Modifiers) : m.truncate.union (m.diff named) = m := by
  apply ext_bit
  intro i
  rw [getLsbD_union, truncate, getLsbD_inter, getLsbD_diff]
  cases hbit : m.bits.getLsbD i with
  | false => simp
  | true => simp [BitVec.lt_of_getLsbD hbit]

theorem readPart_name (f : Flag) : readPart f.name.toList = .ok f.mask := by
  cases f <;> rfl

theorem readDigits_dropWhile_zero (digits : List Char) :
    readDigits 16 0 (digits.dropWhile (· == '0')) = readDigits 16 0 digits := by
  induction digits with
  | nil => rfl
  | cons c cs ih =>
    by_cases hc : c = '0'
    · subst hc
      rw [List.dropWhile_cons_of_pos rfl, ih]
      rfl
    · rw [List.dropWhile_cons_of_neg (by simpa using hc)]

theorem readDigits_hexDigits (m : Modifiers) : readDigits 16 0 m.hexDigits = some m.toNat := by
  have hlt : m.toNat < 16 ^ 4 := m.bits.isLt
  rw [hexDigits, readDigits_dropWhile_zero, readDigits_hexFixed_of_lt hlt]

/-- The digits of a set that is not empty are read as that set. -/
theorem readPart_hexDigits {m : Modifiers} (h : m ≠ empty) :
    readPart ('0' :: 'x' :: m.hexDigits) = .ok m := by
  have hread := readDigits_hexDigits m
  have hplus : ∀ rest, m.hexDigits = '+' :: rest → False := by
    intro rest hdigits
    rw [hdigits] at hread
    exact absurd hread (by simp [readDigits, digitValue?])
  have hnumeral : readNumeral 16 m.hexDigits = some m.toNat := by
    cases hdigits : m.hexDigits with
    | nil =>
      rw [hdigits, readDigits, Option.some.injEq] at hread
      rw [← ofNat_toNat m, ← hread] at h
      exact absurd rfl h
    | cons c cs => rw [readNumeral, ← hdigits, hread]; simp
  rw [readPart, readHex, hnumeral]
  · simp [ofNat_toNat, toNat_lt]
  · exact hplus

/-- The sets that the written parts of a set stand for. -/
def partSets (m : Modifiers) : List Modifiers :=
  m.flags.map Flag.mask ++ if m.diff named = empty then [] else [m.diff named]

theorem foldl_union_partSets (m : Modifiers) : m.partSets.foldl union empty = m := by
  rw [partSets, List.foldl_append, foldl_union_flags]
  split_ifs with hrest
  · rw [List.foldl_nil, ← union_empty m.truncate, ← hrest]
    exact truncate_union_diff_named m
  · exact truncate_union_diff_named m

theorem readParts_eq_foldl {pieces : List (List Char)} {sets : List Modifiers}
    (h : (pieces.map trim).map readPart = sets.map .ok) (m : Modifiers) :
    readParts m pieces = .ok (sets.foldl union m) := by
  induction pieces generalizing sets m with
  | nil =>
    obtain rfl : sets = [] := by simpa using h.symm
    rfl
  | cons piece pieces ih =>
    cases sets with
    | nil => simp at h
    | cons n sets =>
      simp only [List.map_cons, List.cons.injEq] at h
      rw [readParts, h.1]
      exact ih h.2 (m.union n)

theorem map_readPart_parts (m : Modifiers) :
    (m.parts.map String.toList).map readPart = m.partSets.map .ok := by
  have hnames : (m.flags.map Flag.name).map (readPart ∘ String.toList) =
      (m.flags.map Flag.mask).map Except.ok := by
    rw [List.map_map, List.map_map]
    exact List.map_congr_left fun f _ => readPart_name f
  rw [parts, partSets, List.map_map, List.map_append, List.map_append, hnames]
  split_ifs with hrest
  · rfl
  · rw [List.map_singleton, Function.comp_apply, String.toList_ofList, readPart_hexDigits hrest]
    rfl

theorem solid_name (f : Flag) : ∀ c ∈ f.name.toList, isBlank c = false ∧ c ≠ '|' := by
  have hall : f.name.toList.all (fun c => !isBlank c && c != '|') = true := by
    cases f <;> decide
  simpa using hall

/-- No part has white space or the separator in it. -/
theorem solid_of_mem_parts {m : Modifiers} {part : String} (h : part ∈ m.parts) :
    ∀ c ∈ part.toList, isBlank c = false ∧ c ≠ '|' := by
  have hdigit : ∀ n < 16, isBlank (hexDigit n) = false ∧ hexDigit n ≠ '|' := by decide
  rw [parts, List.mem_append] at h
  rcases h with h | h
  · obtain ⟨f, -, rfl⟩ := List.mem_map.mp h
    exact solid_name f
  · split_ifs at h with hrest
    · exact absurd h (by simp)
    · obtain rfl := List.mem_singleton.mp h
      intro c hc
      rw [String.toList_ofList, List.mem_cons, List.mem_cons] at hc
      rcases hc with rfl | rfl | hc
      · decide
      · decide
      · obtain ⟨n, hn, rfl⟩ := exists_of_mem_hexFixed ((List.dropWhile_sublist _).subset hc)
        exact hdigit n hn

/-- A written set is read as itself, bits without a name included. -/
theorem read_write (m : Modifiers) : read m.write = .ok m := by
  have hsets := map_readPart_parts m
  have hunion := foldl_union_partSets m
  cases hparts : m.parts with
  | nil =>
    have hnone : m.partSets = [] := by simpa [hparts] using hsets.symm
    rw [hnone, List.foldl_nil] at hunion
    rw [write, hparts, ← hunion]
    rfl
  | cons part parts =>
    have hsplit : (splitAt '|' (join " | " m.parts).toList).map trim = m.parts.map String.toList :=
      map_trim_splitAt_join (by simp [hparts]) fun _ h => solid_of_mem_parts h
    have hblank : m.write.toList.all isBlank = false := by
      rw [hparts, List.map_cons, List.map_cons] at hsets
      obtain ⟨tail, htail⟩ := exists_join_eq_append " | " part parts
      cases hpart : part.toList with
      | nil =>
        rw [hpart] at hsets
        cases hpartSets : m.partSets <;> simp [hpartSets, readPart] at hsets
      | cons c cs =>
        have hmem : part ∈ m.parts := by rw [hparts]; exact List.mem_cons_self
        have hc : isBlank c = false := (solid_of_mem_parts hmem c (by simp [hpart])).1
        rw [write, hparts, htail, String.toList_append, hpart, List.cons_append, List.all_cons, hc,
          Bool.false_and]
    rw [read, if_neg (by simp [hblank]), write, readParts_eq_foldl (by rw [hsplit, hsets]), hunion]

end Modifiers

end Redeclare
