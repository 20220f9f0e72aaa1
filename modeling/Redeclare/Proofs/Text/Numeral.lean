import Mathlib.Algebra.Group.Nat.Defs
import Mathlib.Data.List.Forall2
import Mathlib.Data.Nat.Digits.Defs
import Redeclare.Text.Numeral

/-!
# Hexadecimal numerals

What a numeral in base 16 stands for is the number with its digits, whatever
their case (`readDigits_eq_some_iff`).  A number that is written with a fixed
width reads back as its lowest digits, so two numbers below the same power of 16
have different numerals of that width.
-/

namespace Redeclare.Text

/-! ## Digits -/

/-- The character is a digit of base 16 with this value, in either case. -/
def IsHexDigit (c : Char) (d : Nat) : Prop :=
  d < 16 ∧ (c = hexDigit d ∨ c = hexDigitUpper d)

theorem digitValue?_eq_some_iff {c : Char} {d : Nat} : digitValue? c = some d ↔ IsHexDigit c d := by
  constructor
  · intro h
    have hchar : Char.ofNat c.toNat = c := Char.ofNat_toNat c
    unfold digitValue? at h
    dsimp only at h
    split_ifs at h with hdecimal hlower hupper
    all_goals obtain rfl := Option.some.inj h
    · refine ⟨by omega, .inl ?_⟩
      rw [hexDigit, if_pos (by omega), Nat.add_sub_cancel' hdecimal.1, hchar]
    · refine ⟨by omega, .inl ?_⟩
      rw [hexDigit, if_neg (by omega), Nat.add_sub_cancel' (by omega), hchar]
    · refine ⟨by omega, .inr ?_⟩
      rw [hexDigitUpper, if_neg (by omega), Nat.add_sub_cancel' (by omega), hchar]
  · rintro ⟨hd, rfl | rfl⟩
    · exact digitValue?_hexDigit hd
    · decide +revert

/-- Digits that are read behind a value are the lowest digits of the number. -/
theorem readDigits_eq_some_iff {cs : List Char} {value n : Nat} : readDigits 16 value cs = some n ↔
    ∃ ds, List.Forall₂ IsHexDigit cs ds ∧ value * 16 ^ ds.length + Nat.ofDigits 16 ds.reverse = n := by
  induction cs generalizing value with
  | nil => simp [readDigits, List.forall₂_nil_left_iff]
  | cons c cs ih =>
    have hvalue : ∀ d : Nat, ∀ ds : List Nat, value * 16 ^ (d :: ds).length +
        Nat.ofDigits 16 (d :: ds).reverse =
          (value * 16 + d) * 16 ^ ds.length + Nat.ofDigits 16 ds.reverse := by
      intro d ds
      rw [List.length_cons, List.reverse_cons, Nat.ofDigits_append, Nat.ofDigits_singleton,
        List.length_reverse]
      ring
    rw [readDigits]
    constructor
    · intro h
      split at h
      · rename_i d hd
        split_ifs at h with hlt
        obtain ⟨ds, hds, rfl⟩ := ih.mp h
        exact ⟨d :: ds, .cons (digitValue?_eq_some_iff.mp hd) hds, hvalue d ds⟩
      · exact nomatch h
    · rintro ⟨_, hall, rfl⟩
      obtain ⟨d, ds, hd, hds, rfl⟩ := List.forall₂_cons_left_iff.mp hall
      have hrest := ih.mpr ⟨ds, hds, (hvalue d ds).symm⟩
      rw [digitValue?_eq_some_iff.mpr hd]
      dsimp only
      rw [if_pos hd.1]
      exact hrest

theorem readNumeral_eq_some_iff {cs : List Char} {n : Nat} : readNumeral 16 cs = some n ↔
    cs ≠ [] ∧ ∃ ds, List.Forall₂ IsHexDigit cs ds ∧ Nat.ofDigits 16 ds.reverse = n := by
  cases cs with
  | nil => simp [readNumeral]
  | cons c cs => simp [readNumeral, readDigits_eq_some_iff]

/-! ## Numerals of a fixed width -/

/-- The numeral of a fixed width, read behind a value, stands for the lowest digits of the number. -/
theorem readDigits_hexFixed (width value n : Nat) :
    readDigits 16 value (hexFixed hexDigit width n) = some (value * 16 ^ width + n % 16 ^ width) := by
  induction width generalizing value with
  | zero => simp [hexFixed, readDigits, Nat.mod_one]
  | succ width ih =>
    have hdigit : n / Nat.pow 16 width % 16 < 16 := Nat.mod_lt _ (by decide)
    rw [hexFixed, readDigits, digitValue?_hexDigit hdigit]
    simp only [hdigit, if_true]
    rw [ih, Nat.mod_pow_succ]
    simp only [Nat.pow_eq]
    rw [Nat.add_mul, Nat.mul_assoc, Nat.pow_succ', Nat.mul_comm (n / 16 ^ width % 16)]
    congr 1
    omega

/-- A number below the power of its width reads back from its numeral. -/
theorem readDigits_hexFixed_of_lt {width n : Nat} (h : n < 16 ^ width) :
    readDigits 16 0 (hexFixed hexDigit width n) = some n := by
  rw [readDigits_hexFixed, Nat.mod_eq_of_lt h, Nat.zero_mul, Nat.zero_add]

theorem exists_of_mem_hexFixed {digit : Nat → Char} {width n : Nat} {c : Char}
    (h : c ∈ hexFixed digit width n) : ∃ k < 16, c = digit k := by
  induction width with
  | zero => exact absurd h List.not_mem_nil
  | succ width ih =>
    rcases List.mem_cons.mp h with rfl | h
    · exact ⟨_, Nat.mod_lt _ (by decide), rfl⟩
    · exact ih h

theorem eq_of_hexFixed_eq {width m n : Nat} (hm : m < 16 ^ width) (hn : n < 16 ^ width)
    (h : hexFixed hexDigit width m = hexFixed hexDigit width n) : m = n := by
  have hread := readDigits_hexFixed_of_lt hm
  rw [h, readDigits_hexFixed_of_lt hn] at hread
  exact (Option.some.inj hread).symm

end Redeclare.Text
