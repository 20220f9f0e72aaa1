import Mathlib.Tactic.SplitIfs
import Redeclare.Json.Reader
import Redeclare.Json.Writer
import Redeclare.Proofs.Text.Numeral

/-!
# Written JSON scalars read back

A string reads back up to its closing quote whatever follows it: every escape
that is written is one that is read.  An integer of 64 bits reads back if the
text behind it cannot go on with the number.

* `readString_writeString` is the fold of `readString_writeChar` over a string.
* `readNumber_toDigits` reads the digits of a number that does not overflow;
  its two users add the sign.
-/

namespace Redeclare.Json

open Text

/-! ## Strings -/

/-- Four written digits stand for their number. -/
theorem hex4?_hexFixed {n : Nat} (h : n < 0x10000) {a b c d : Char}
    (hdigits : hexFixed hexDigit 4 n = [a, b, c, d]) : hex4? a b c d = some n := by
  rw [hex4?, ← hdigits]
  exact readDigits_hexFixed_of_lt h

/-- A control character is read from its number, whether or not another number follows. -/
theorem readString_escapedControl {ch : Char} (hch : ch.toNat < 0x20) (acc cs : List Char) :
    readString acc ('\\' :: 'u' :: hexFixed hexDigit 4 ch.toNat ++ cs) =
      readString (ch :: acc) cs := by
  obtain ⟨a, b, c, d, hdigits⟩ : ∃ a b c d, hexFixed hexDigit 4 ch.toNat = [a, b, c, d] :=
    ⟨_, _, _, _, rfl⟩
  have hread : hex4? a b c d = some ch.toNat := hex4?_hexFixed (by omega) hdigits
  have hhigh : ¬(0xd800 ≤ ch.toNat ∧ ch.toNat < 0xdc00) := by omega
  have hlow : ¬(0xdc00 ≤ ch.toNat ∧ ch.toNat < 0xe000) := by omega
  have hsurrogate : ¬(0xd800 ≤ ch.toNat ∧ ch.toNat < 0xe000) := by omega
  rw [hdigits]
  simp only [List.cons_append, List.nil_append]
  -- the reader looks for the second half of a surrogate pair before it takes the number alone
  by_cases hpair : ∃ a' b' c' d' cs', cs = '\\' :: 'u' :: a' :: b' :: c' :: d' :: cs'
  · obtain ⟨a', b', c', d', cs', rfl⟩ := hpair
    rw [readString, hread]
    simp only [hhigh, hlow, if_false, Char.ofNat_toNat]
  · rw [readString, hread]
    · simp only [hsurrogate, if_false, Char.ofNat_toNat]
    · intro a' b' c' d' cs' heq
      exact hpair ⟨a', b', c', d', cs', heq⟩

/-- What is written for a character is read as that character. -/
theorem readString_writeChar (c : Char) (acc cs : List Char) :
    readString acc (writeChar c ++ cs) = readString (c :: acc) cs := by
  rw [writeChar]
  split_ifs with h1 h2 h3 h4 h5 h6 h7 h8
  · subst h1; rfl
  · subst h2; rfl
  · subst h3; rfl
  · subst h4; rfl
  · subst h5; rfl
  · subst h6; rfl
  · subst h7; rfl
  · exact readString_escapedControl h8 acc cs
  · have hplain : ¬(c.toNat < 0x20 ∨ c = '\\') := not_or.mpr ⟨h8, h2⟩
    rw [List.singleton_append, readString, if_neg hplain]
    · exact h1
    · intro _ _ _ _ _ _ _ _ _ hc
      exact absurd hc h2
    · intro _ _ _ _ _ hc
      exact absurd hc h2
    · intro _ _ hc
      exact absurd hc h2

theorem readString_flatMap_writeChar (cs acc rest : List Char) :
    readString acc (cs.flatMap writeChar ++ '"' :: rest) =
      some (String.ofList (acc.reverse ++ cs), rest) := by
  induction cs generalizing acc with
  | nil => rw [List.flatMap_nil, List.nil_append, readString, List.append_nil]
  | cons c cs ih =>
    rw [List.flatMap_cons, List.append_assoc, readString_writeChar, ih, List.reverse_cons,
      List.append_assoc, List.singleton_append]

/-- A written string reads back, and the text behind its closing quote is left. -/
theorem readString_writeString (s : String) (rest : List Char) :
    readString [] (s.toList.flatMap writeChar ++ '"' :: rest) = some (s, rest) := by
  rw [readString_flatMap_writeChar, List.reverse_nil, List.nil_append, String.ofList_toList]

/-! ## Integers -/

/-- A text behind a value: it is empty, or goes on with what separates or ends values. -/
def Follows (rest : List Char) : Prop :=
  ∀ c ∈ rest.head?, c = ',' ∨ c = ']' ∨ c = '\x7d' ∨ c = '\n'

theorem follows_nil : Follows [] := fun _ h => absurd h (by simp)

theorem follows_cons {c : Char} {cs : List Char}
    (h : c = ',' ∨ c = ']' ∨ c = '\x7d' ∨ c = '\n') : Follows (c :: cs) := by
  intro d hd
  rw [List.head?_cons, Option.mem_some_iff] at hd
  exact hd ▸ h

theorem isDecimalDigit_of_isDigit {c : Char} (h : c.isDigit = true) : isDecimalDigit c = true := by
  simpa [isDecimalDigit, Char.isDigit, Char.le_def] using h

theorem isDecimalDigit_of_mem_toDigits {n : Nat} {c : Char} (h : c ∈ Nat.toDigits 10 n) :
    isDecimalDigit c = true :=
  isDecimalDigit_of_isDigit (Nat.isDigit_of_mem_toDigits (by decide) (by decide) h)

theorem exists_toDigits_eq_cons (n : Nat) :
    ∃ c cs, Nat.toDigits 10 n = c :: cs ∧ isDecimalDigit c = true := by
  cases hdigits : Nat.toDigits 10 n with
  | nil => exact absurd hdigits Nat.toDigits_ne_nil
  | cons c cs =>
    exact ⟨c, cs, rfl, isDecimalDigit_of_mem_toDigits (n := n) (hdigits ▸ List.mem_cons_self)⟩

theorem toList_toString_ofNat (n : Nat) : (toString (Int.ofNat n)).toList = Nat.toDigits 10 n :=
  Nat.toList_repr

theorem toList_toString_negSucc (n : Nat) :
    (toString (Int.negSucc n)).toList = '-' :: Nat.toDigits 10 (n + 1) := by
  have hrepr : toString (Int.negSucc n) = "-" ++ (n + 1).repr := rfl
  rw [hrepr, String.toList_append, Nat.toList_repr]
  rfl

theorem Follows.isDecimalDigit_eq_false {c : Char} {cs : List Char} (h : Follows (c :: cs)) :
    isDecimalDigit c = false := by
  rcases h c rfl with rfl | rfl | rfl | rfl <;> decide

theorem countDigits_append {digits rest : List Char} (hdigits : ∀ c ∈ digits, isDecimalDigit c = true)
    (hrest : Follows rest) : countDigits (digits ++ rest) = (digits.length, rest) := by
  have htake : rest.takeWhile isDecimalDigit = [] := by
    cases rest with
    | nil => rfl
    | cons c cs => rw [List.takeWhile_cons, hrest.isDecimalDigit_eq_false]; rfl
  have hdrop : rest.dropWhile isDecimalDigit = rest := by
    cases rest with
    | nil => rfl
    | cons c cs => rw [List.dropWhile_cons, hrest.isDecimalDigit_eq_false]; rfl
  rw [countDigits, List.takeWhile_append_of_pos hdigits, List.dropWhile_append_of_pos hdigits, htake,
    hdrop, List.append_nil]

theorem le_ofDigitChars (digits : List Char) (value : Nat) :
    value ≤ Nat.ofDigitChars 10 digits value := by
  induction digits generalizing value with
  | nil => exact Nat.le_of_eq Nat.ofDigitChars_nil.symm
  | cons c cs ih =>
    rw [Nat.ofDigitChars_cons]
    have hnext := ih (10 * value + (c.toNat - '0'.toNat))
    omega

/-- Digits whose number fits are taken as a whole. -/
theorem takeDigits_append {digits rest : List Char} {value count : Nat}
    (hdigits : ∀ c ∈ digits, isDecimalDigit c = true) (hrest : Follows rest)
    (hfits : Nat.ofDigitChars 10 digits value ≤ maxUnsigned) :
    takeDigits value count (digits ++ rest) =
      (Nat.ofDigitChars 10 digits value, count + digits.length, rest) := by
  induction digits generalizing value count with
  | nil =>
    rw [Nat.ofDigitChars_nil]
    cases rest with
    | nil => rfl
    | cons c cs =>
      rw [List.nil_append, takeDigits, hrest.isDecimalDigit_eq_false]
      rfl
  | cons c cs ih =>
    have hc : isDecimalDigit c = true := hdigits c List.mem_cons_self
    rw [Nat.ofDigitChars_cons, Nat.mul_comm 10 value] at hfits
    have hnext : ¬ maxUnsigned < value * 10 + (c.toNat - 48) :=
      Nat.not_lt.mpr (Nat.le_trans (le_ofDigitChars cs _) hfits)
    have htail : takeDigits (value * 10 + (c.toNat - 48)) (count + 1) (cs ++ rest) = _ :=
      ih (fun d hd => hdigits d (List.mem_cons_of_mem _ hd)) hfits
    rw [List.cons_append, takeDigits, if_pos hc, if_neg hnext, Nat.ofDigitChars_cons,
      Nat.mul_comm 10 value, List.length_cons, ← Nat.add_assoc, Nat.add_right_comm]
    exact htail

/-- A number other than zero has no leading zero. -/
theorem head?_toDigits_ne {n : Nat} (h : 0 < n) : (Nat.toDigits 10 n).head? ≠ some '0' := by
  induction n using Nat.strongRecOn with
  | ind n ih =>
    rw [Nat.toDigits_eq_if (by decide)]
    split_ifs with hlt
    · simp only [List.head?_cons, ne_eq, Option.some.injEq, Nat.digitChar_eq_zero]
      omega
    · have hhead := ih (n / 10) (by omega) (by omega)
      rw [List.head?_append]
      cases hdigits : Nat.toDigits 10 (n / 10) with
      | nil => exact absurd hdigits Nat.toDigits_ne_nil
      | cons c cs =>
        rw [hdigits] at hhead
        simpa using hhead

/-- The digits of a number that fits are read as that number, with the sign that is given. -/
theorem readNumber_toDigits {n : Nat} {rest : List Char} (hn : n ≤ maxUnsigned) (hrest : Follows rest)
    (negative : Bool) (hsign : negative = true → 0 < n ∧ n ≤ 0x8000000000000000) :
    readNumber negative (Nat.toDigits 10 n ++ rest) =
      some (.int (if negative then -(n : Int) else n), rest) := by
  have hdigits := fun c => isDecimalDigit_of_mem_toDigits (n := n) (c := c)
  have hvalue : Nat.ofDigitChars 10 (Nat.toDigits 10 n) 0 = n := Nat.ofDigitChars_ten_toDigits
  have hcount := countDigits_append hdigits hrest
  have htake : takeDigits 0 0 (Nat.toDigits 10 n ++ rest) = _ :=
    takeDigits_append hdigits hrest (by rw [hvalue]; exact hn)
  have hzero : (Nat.toDigits 10 n).head? = some '0' → (Nat.toDigits 10 n).length ≤ 1 := by
    intro hhead
    have hn0 : n = 0 := Nat.eq_zero_of_not_pos fun hpos => head?_toDigits_ne hpos hhead
    rw [hn0, Nat.toDigits_zero]
    exact Nat.le_refl 1
  cases htext : Nat.toDigits 10 n with
  | nil => exact absurd htext Nat.toDigits_ne_nil
  | cons c cs =>
    rw [htext] at hcount htake hvalue hzero
    have hplaces : ¬((c :: cs).length = 0 ∨ (c = '0' ∧ 1 < (c :: cs).length)) := by
      rintro (hlen | ⟨rfl, hlen⟩)
      · exact absurd hlen (by simp)
      · exact absurd (hzero rfl) (by omega)
    rw [List.cons_append] at hcount htake ⊢
    rw [readNumber]
    simp only [hcount, htake, if_neg hplaces, Nat.zero_add, Nat.sub_self, hvalue]
    split
    · exact absurd (hrest '.' rfl) (by decide)
    · exact absurd (hrest 'e' rfl) (by decide)
    · exact absurd (hrest 'E' rfl) (by decide)
    · cases negative with
      | false => simp
      | true => simp [hsign rfl]

end Redeclare.Json
