import Mathlib.Tactic.SplitIfs
import Redeclare.Proofs.Json.Scalars
import Redeclare.Yaml.Scalar

/-!
# Plain scalars that JSON writes

JSON writes nothing, truth values and integers without quotes.  A plain scalar
with such a text has the same value, whatever texts the format knows besides.

* `magnitude?_toDigits` reads the digits of a number: they are not taken for a
  numeral of another base, nor for a text of digits behind a zero.
* `plainValue_toString` reads an integer with its sign.
-/

namespace Redeclare.Yaml

open Text

/-! ## Digits -/

theorem digitValue?_of_isDecimalDigit {c : Char} (h : isDecimalDigit c = true) :
    digitValue? c = some (c.toNat - 48) ∧ c.toNat - 48 < 10 := by
  simp only [isDecimalDigit, Bool.and_eq_true, decide_eq_true_eq, Char.le_def] at h
  have hlow : 48 ≤ c.toNat := h.1
  have hhigh : c.toNat ≤ 57 := h.2
  rw [digitValue?, if_pos ⟨hlow, hhigh⟩]
  exact ⟨rfl, by omega⟩

theorem readDigits_eq_ofDigitChars {digits : List Char} (h : ∀ c ∈ digits, isDecimalDigit c = true)
    (value : Nat) : readDigits 10 value digits = some (Nat.ofDigitChars 10 digits value) := by
  induction digits generalizing value with
  | nil => rw [readDigits, Nat.ofDigitChars_nil]
  | cons c cs ih =>
    obtain ⟨hvalue, hlt⟩ := digitValue?_of_isDecimalDigit (h c List.mem_cons_self)
    have hrest := ih (fun d hd => h d (List.mem_cons_of_mem _ hd))
    rw [readDigits, hvalue, Nat.ofDigitChars_cons, Nat.mul_comm 10 value, ← hrest]
    exact if_pos hlt

theorem dropSign_of_isDecimalDigit {signs cs : List Char} {c : Char}
    (hsigns : signs.any isDecimalDigit = false) (hc : isDecimalDigit c = true) :
    dropSign signs (c :: cs) = c :: cs := by
  have hnot : c ∉ signs := by
    intro hmem
    have hany := List.any_eq_true.mpr ⟨c, hmem, hc⟩
    rw [hsigns] at hany
    exact Bool.noConfusion hany
  rw [dropSign, if_neg (by simpa using hnot)]

theorem isZeroPadded_toDigits (n : Nat) : isZeroPadded (Nat.toDigits 10 n) = false := by
  obtain ⟨c, cs, hdigits, hc⟩ := Json.exists_toDigits_eq_cons n
  rw [hdigits, isZeroPadded, dropSign_of_isDecimalDigit rfl hc]
  by_cases hzero : c = '0'
  · subst hzero
    have hn : n = 0 := by
      refine Nat.eq_zero_of_not_pos fun hpos => Json.head?_toDigits_ne hpos ?_
      rw [hdigits]
      rfl
    rw [hn, Nat.toDigits_zero] at hdigits
    rw [← (List.cons.inj hdigits).2]
    rfl
  · simp [hzero]

/-- The digits of a number are read in base 10, as that number. -/
theorem magnitude?_toDigits (n : Nat) : magnitude? (Nat.toDigits 10 n) = some n := by
  have hdigits : ∀ c ∈ Nat.toDigits 10 n, isDecimalDigit c = true := fun _ =>
    Json.isDecimalDigit_of_mem_toDigits
  have hpadded := isZeroPadded_toDigits n
  have hread := readDigits_eq_ofDigitChars hdigits 0
  rw [Nat.ofDigitChars_ten_toDigits] at hread
  -- a letter behind the first digit would tell another base
  have hletter : ∀ {d : Char} {ds : List Char}, Nat.toDigits 10 n = '0' :: d :: ds →
      isDecimalDigit d = true := by
    intro d ds heq
    exact hdigits d (by simp [heq])
  rw [magnitude?.eq_def]
  split
  case h_4 =>
    obtain ⟨c, cs, htext, -⟩ := Json.exists_toDigits_eq_cons n
    rw [htext] at hread hpadded ⊢
    rw [hpadded]
    exact hread
  all_goals exact absurd (hletter ‹_›) (by decide)

/-! ## Integers -/

/-- A text that starts with a sign or a digit is neither nothing nor a truth value. -/
theorem not_word_of_head {s : String} {c : Char} (hhead : s.toList.head? = some c)
    (hc : c = '-' ∨ isDecimalDigit c = true) : isNull s = false ∧ bool? s = none := by
  have hne : ∀ t : String, t.toList.head?.all (fun d => d ≠ '-' ∧ isDecimalDigit d = false) = true →
      s ≠ t := by
    rintro t ht rfl
    rw [hhead] at ht
    rcases hc with rfl | hc
    · simp at ht
    · simp [hc] at ht
  constructor
  · simp [isNull, hne "null" (by decide), hne "Null" (by decide), hne "NULL" (by decide),
      hne "~" (by decide)]
  · simp [bool?, hne "true" (by decide), hne "True" (by decide), hne "TRUE" (by decide),
      hne "false" (by decide), hne "False" (by decide), hne "FALSE" (by decide)]

theorem int?_toString {n : Int} (hlow : -0x8000000000000000 ≤ n) (hhigh : n < 0x10000000000000000) :
    int? (toString n).toList = some n := by
  cases n with
  | ofNat m =>
    have hbound : m < 0x100000000000000000000000000000000 := by
      rw [Int.ofNat_eq_natCast] at hhigh
      omega
    have hmagnitude := magnitude?_toDigits m
    obtain ⟨c, cs, hdigits, hc⟩ := Json.exists_toDigits_eq_cons m
    have hminus : c ≠ '-' := by
      intro heq
      rw [heq] at hc
      exact absurd hc (by decide)
    rw [hdigits] at hmagnitude
    rw [Json.toList_toString_ofNat, hdigits, int?.eq_def]
    split
    · rename_i heq
      exact absurd (List.cons.inj heq).1 hminus
    · rw [dropSign_of_isDecimalDigit rfl hc, hmagnitude]
      exact if_pos hbound
  | negSucc m =>
    have hbound : m + 1 ≤ 0x80000000000000000000000000000000 := by omega
    rw [Json.toList_toString_negSucc, int?, magnitude?_toDigits]
    exact if_pos hbound

theorem exists_toList_toString_eq_cons (n : Int) :
    ∃ c cs, (toString n).toList = c :: cs ∧ (c = '-' ∨ isDecimalDigit c = true) := by
  cases n with
  | ofNat m =>
    obtain ⟨c, cs, hdigits, hc⟩ := Json.exists_toDigits_eq_cons m
    exact ⟨c, cs, (Json.toList_toString_ofNat m).trans hdigits, .inr hc⟩
  | negSucc m => exact ⟨'-', _, Json.toList_toString_negSucc m, .inl rfl⟩

/-- An integer is read as itself. -/
theorem plainValue_toString {n : Int} (hlow : -0x8000000000000000 ≤ n)
    (hhigh : n < 0x10000000000000000) : plainValue (toString n) = .int n := by
  have hint := int?_toString hlow hhigh
  obtain ⟨c, cs, htext, hc⟩ := exists_toList_toString_eq_cons n
  obtain ⟨hnull, hbool⟩ := not_word_of_head (by rw [htext]; rfl) hc
  rw [plainValue, hnull, hbool, hint, htext]
  rfl

end Redeclare.Yaml
