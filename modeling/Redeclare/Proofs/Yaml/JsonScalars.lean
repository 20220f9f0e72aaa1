import Mathlib.Tactic.SplitIfs
import Redeclare.Json.Writer
import Redeclare.Proofs.Json.Scalars
import Redeclare.Proofs.Text.Numeral
import Redeclare.Yaml.Token.Scalar

/-!
# The scalars of a JSON text in YAML

A JSON text is a YAML text as far as its strings hold only what YAML can show:
characters that are escaped, or that a text may hold and that end no line.  A
reader of YAML then sees in each scalar what was written.

* `isLegible` is the condition on the characters of a string, and
  `all_isSettled_writeString` says that its text is left as it is when line
  breaks are made uniform.
* `scanQuoted_writeString` scans a string.  The spaces in it cut it into words;
  `quotedWords_flatMap` is the induction over them.
* `scanPlain_of_isBare` scans a scalar without quotes, together with the white
  space behind it.
-/

namespace Redeclare.Yaml

open Json Text

/-! ## Characters -/

/-- A character that a JSON string shows to a reader of YAML: it is escaped, or it may stand in a text
and ends no line. -/
def isLegible (c : Char) : Bool :=
  decide (c.toNat < 0x20) || (isAllowed c && !isBreak c && c != '\u0085')

/-- A character that is read as it stands. -/
def isSettled (c : Char) : Bool :=
  isAllowed c && c != '\r' && c != '\u0085'

/-- A character of a class is none outside it. -/
theorem ne_of_class {p : Char → Bool} {c d : Char} (h : p c = true) (hd : p d = false) : c ≠ d := by
  rintro rfl
  rw [hd] at h
  exact Bool.noConfusion h

theorem unifyBreaks_of_isSettled {cs : List Char} (h : cs.all isSettled = true) :
    unifyBreaks cs = cs := by
  induction cs with
  | nil => rfl
  | cons c cs ih =>
    rw [List.all_cons, Bool.and_eq_true] at h
    obtain ⟨hc, hcs⟩ := h
    simp only [isSettled, Bool.and_eq_true, bne_iff_ne, ne_eq] at hc
    obtain ⟨⟨-, hreturn⟩, hnext⟩ := hc
    rw [unifyBreaks, ih hcs]
    · simp [hreturn, hnext]
    · intro _ heq
      exact absurd heq hreturn

theorem sourceChars_of_isSettled {c : Char} {cs : List Char} (hmark : c ≠ byteOrderMark)
    (h : (c :: cs).all isSettled = true) : sourceChars (c :: cs) = .ok (c :: cs) := by
  have hallowed : (c :: cs).find? (fun d => !isAllowed d) = none := by
    rw [List.find?_eq_none]
    intro d hd
    have hd := List.all_eq_true.mp h d hd
    simp only [isSettled, Bool.and_eq_true] at hd
    simp [hd.1.1]
  simp only [sourceChars, if_neg hmark, hallowed, unifyBreaks_of_isSettled h]

/-- A legible character that is not escaped: it is settled, and it is no white space but a space. -/
theorem isSettled_of_isLegible {c : Char} (h : isLegible c = true) (hplain : ¬ c.toNat < 0x20) :
    isSettled c = true ∧ isBreak c = false ∧ c ≠ '\t' := by
  simp only [isLegible, hplain, decide_false, Bool.false_or, Bool.and_eq_true, Bool.not_eq_true',
    bne_iff_ne, ne_eq] at h
  obtain ⟨⟨hallowed, hbreak⟩, hnext⟩ := h
  refine ⟨?_, hbreak, ?_⟩
  · have hreturn : c ≠ '\r' := by
      rintro rfl
      exact hplain (by decide)
    simp [isSettled, hallowed, hreturn, hnext]
  · rintro rfl
    exact hplain (by decide)

theorem isSettled_hexDigit {n : Nat} (h : n < 16) : isSettled (hexDigit n) = true := by
  decide +revert

theorem all_isSettled_writeChar {c : Char} (h : isLegible c = true) :
    (writeChar c).all isSettled = true := by
  rw [writeChar]
  split_ifs with h1 h2 h3 h4 h5 h6 h7 h8
  · rfl
  · rfl
  · rfl
  · rfl
  · rfl
  · rfl
  · rfl
  · have hdigits : (hexFixed hexDigit 4 c.toNat).all isSettled = true := by
      refine List.all_eq_true.mpr fun d hd => ?_
      obtain ⟨k, hk, rfl⟩ := exists_of_mem_hexFixed hd
      exact isSettled_hexDigit hk
    rw [List.all_cons, List.all_cons, hdigits]
    rfl
  · rw [List.all_cons, (isSettled_of_isLegible h h8).1]
    rfl

theorem all_isSettled_writeString {s : String} (h : s.toList.all isLegible = true) :
    (writeString s).all isSettled = true := by
  have hchars : (s.toList.flatMap writeChar).all isSettled = true := by
    rw [List.all_flatMap]
    refine List.all_eq_true.mpr fun c hc => ?_
    exact all_isSettled_writeChar (List.all_eq_true.mp h c hc)
  rw [writeString, List.cons_append, List.all_cons, List.all_append, hchars]
  rfl

/-! ## Places behind a part of a line -/

namespace Cursor

/-- The place behind some characters of a line. -/
def pass (c : Cursor) (n : Nat) (rest : List Char) : Cursor :=
  ⟨rest, c.index + n, c.line, c.column + n⟩

theorem pass_pass (c : Cursor) (n k : Nat) (rest rest' : List Char) :
    (c.pass n rest).pass k rest' = c.pass (n + k) rest' := by
  rw [pass, pass, pass, Nat.add_assoc, Nat.add_assoc]

theorem moveTo_eq_pass {c : Cursor} {part rest : List Char} (h : c.rest = part ++ rest) :
    c.moveTo rest = c.pass part.length rest := by
  have hlength : c.rest.length - rest.length = part.length := by
    rw [h, List.length_append, Nat.add_sub_cancel]
  rw [moveTo, hlength, pass]

theorem skip_eq_pass {c : Cursor} {ch : Char} {rest : List Char} (h : c.rest = ch :: rest)
    (hbreak : isBreak ch = false) : c.skip = c.pass 1 rest := by
  rw [skip, h]
  simp only [hbreak]
  rfl

/-- No marker of a document stands within a line. -/
theorem atDocumentMarker_of_column_pos {c : Cursor} (h : 0 < c.column) :
    c.atDocumentMarker = false := by
  have hmarker : ∀ mark, c.atMarker mark = false := by
    intro mark
    rw [atMarker]
    split
    · have hcolumn : (c.column == 0) = false := by simpa using Nat.ne_of_gt h
      rw [hcolumn]
      rfl
    · rfl
  rw [atDocumentMarker, hmarker, hmarker]
  rfl

theorem atMarker_of_head_ne {c : Cursor} {ch mark : Char} {rest : List Char} (h : c.rest = ch :: rest)
    (hne : ch ≠ mark) : c.atMarker mark = false := by
  rw [atMarker]
  split
  · rename_i x y z tail heq
    rw [h] at heq
    obtain ⟨rfl, -⟩ := List.cons.inj heq
    simp [hne]
  · rfl

end Cursor

/-! ## Strings -/

/-- What is written for a character other than the space belongs to a word. -/
theorem doubleWord_writeChar {c : Char} (h : isLegible c = true) (hspace : c ≠ ' ')
    (rest : List Char) :
    doubleWord (writeChar c ++ rest) = consWord (some c) (doubleWord rest) := by
  rw [writeChar]
  split_ifs with h1 h2 h3 h4 h5 h6 h7 h8
  · subst h1; rfl
  · subst h2; rfl
  · subst h3; rfl
  · subst h4; rfl
  · subst h5; rfl
  · subst h6; rfl
  · subst h7; rfl
  · have hread : codeEscape? (hexFixed hexDigit 4 c.toNat) = some c := by
      have hsmall : c.toNat < 16 ^ 4 := by omega
      have hdigits : readNumeral 16 (hexFixed hexDigit 4 c.toNat) = some c.toNat :=
        readDigits_hexFixed_of_lt hsmall
      have hlow : ¬ (0xd800 ≤ c.toNat ∧ c.toNat ≤ 0xdfff) := by omega
      have hhigh : ¬ 0x10ffff < c.toNat := by omega
      simp [codeEscape?, hdigits, hlow, hhigh]
    rw [← hread]
    rfl
  · obtain ⟨-, hbreak, htab⟩ := isSettled_of_isLegible h h8
    rw [List.singleton_append, doubleWord.eq_def]
    split
    case h_5 heq =>
      obtain ⟨rfl, rfl⟩ := List.cons.inj heq
      simp [atGap, isSpaceTab, h1, h2, hspace, htab, hbreak]
    case h_6 heq => exact absurd heq (List.cons_ne_nil _ _)
    all_goals
      rename_i heq
      exact absurd (List.cons.inj heq).1 h2

theorem doubleWord_flatMap {cs : List Char} (h : cs.all isLegible = true) (hspace : ' ' ∉ cs)
    {c : Char} (hc : c = ' ' ∨ c = '"') (rest : List Char) :
    doubleWord (cs.flatMap writeChar ++ c :: rest) = .ok (cs, c :: rest) := by
  induction cs with
  | nil => rcases hc with rfl | rfl <;> rfl
  | cons d cs ih =>
    rw [List.all_cons, Bool.and_eq_true] at h
    rw [List.mem_cons, not_or] at hspace
    rw [List.flatMap_cons, List.append_assoc, doubleWord_writeChar h.1 (Ne.symm hspace.1),
      ih h.2 hspace.2]
    rfl

/-- A gap ends where a word starts. -/
theorem scan_of_not_atGap {indent fuel : Nat} {g : Gap} {c : Cursor} (h : atGap c.rest = false) :
    Gap.scan indent fuel g c = .ok (g, c) := by
  cases fuel with
  | zero => rfl
  | succ fuel =>
    cases hrest : c.rest with
    | nil =>
      rw [hrest] at h
      exact absurd h (by decide)
    | cons ch rest =>
      rw [hrest, atGap, Bool.or_eq_false_iff] at h
      rw [Gap.scan, hrest]
      simp [h.1, h.2]

/-- The spaces at a place within a line are read as a gap. -/
theorem scan_replicate_space {n fuel : Nat} {spaces rest : List Char} {c : Cursor} (hfuel : n ≤ fuel)
    (h : c.rest = List.replicate n ' ' ++ rest) (hrest : atGap rest = false) :
    Gap.scan 0 fuel { spaces } c =
      .ok ({ spaces := List.replicate n ' ' ++ spaces }, c.pass n rest) := by
  induction n generalizing fuel spaces c with
  | zero =>
    have hstop : c.pass 0 rest = c := by
      rw [List.replicate_zero, List.nil_append] at h
      rw [Cursor.pass, ← h]
      rfl
    rw [List.replicate_zero, List.nil_append] at h
    rw [hstop]
    exact scan_of_not_atGap (by rwa [h])
  | succ n ih =>
    cases fuel with
    | zero => exact absurd hfuel (Nat.not_succ_le_zero n)
    | succ fuel =>
      rw [List.replicate_succ, List.cons_append] at h
      have hskip : c.skip = c.pass 1 (List.replicate n ' ' ++ rest) := c.skip_eq_pass h rfl
      have hnext : Gap.scan 0 fuel { spaces := ' ' :: spaces }
          (c.pass 1 (List.replicate n ' ' ++ rest)) =
          .ok ({ spaces := List.replicate n ' ' ++ ' ' :: spaces },
            (c.pass 1 (List.replicate n ' ' ++ rest)).pass n rest) :=
        ih (Nat.le_of_succ_le_succ hfuel) rfl
      have hspaces : List.replicate n ' ' ++ ' ' :: spaces = List.replicate (n + 1) ' ' ++ spaces := by
        rw [List.replicate_succ', List.append_assoc, List.singleton_append]
      rw [Cursor.pass_pass, hspaces, Nat.add_comm 1 n] at hnext
      rw [Gap.scan, h]
      simpa [isSpaceTab, hskip] using hnext

/-- A text is a word without spaces, then spaces, then the rest; nothing follows without a space. -/
theorem exists_word_spaces (cs : List Char) : ∃ word n rest,
    cs = word ++ (List.replicate n ' ' ++ rest) ∧ ' ' ∉ word ∧ (n = 0 → rest = []) ∧
      rest.head? ≠ some ' ' := by
  induction cs with
  | nil => exact ⟨[], 0, [], rfl, List.not_mem_nil, fun _ => rfl, by simp⟩
  | cons c cs ih =>
    obtain ⟨word, n, rest, heq, hword, hnone, hrest⟩ := ih
    by_cases hc : c = ' '
    · subst hc
      cases word with
      | nil => exact ⟨[], n + 1, rest, by rw [heq]; rfl, hword, by simp, hrest⟩
      | cons d word =>
        refine ⟨[], 1, cs, rfl, List.not_mem_nil, by simp, ?_⟩
        rw [heq]
        intro hhead
        exact hword (Option.some.inj hhead ▸ List.mem_cons_self)
    · refine ⟨c :: word, n, rest, by rw [heq]; rfl, ?_, hnone, hrest⟩
      rw [List.mem_cons, not_or]
      exact ⟨Ne.symm hc, hword⟩

theorem atGap_of_head_ne {cs : List Char} (h : cs.all isLegible = true) (hspace : cs.head? ≠ some ' ')
    (rest : List Char) : atGap (cs.flatMap writeChar ++ '"' :: rest) = false := by
  cases cs with
  | nil => rfl
  | cons c cs =>
    rw [List.all_cons, Bool.and_eq_true] at h
    have hne : c ≠ ' ' := fun heq => hspace (by rw [heq]; rfl)
    rw [List.flatMap_cons, List.append_assoc, writeChar]
    split_ifs with h1 h2 h3 h4 h5 h6 h7 h8
    case neg =>
      obtain ⟨-, hbreak, htab⟩ := isSettled_of_isLegible h.1 h8
      simp [atGap, isSpaceTab, hne, htab, hbreak]
    all_goals rfl

theorem flatMap_writeChar_replicate (n : Nat) :
    (List.replicate n ' ').flatMap writeChar = List.replicate n ' ' := by
  induction n with
  | zero => rfl
  | succ n ih =>
    rw [List.replicate_succ, List.flatMap_cons, ih]
    rfl

section Rounds

variable {word text : List Char} {c : Cursor}

/-- The last word of a string, with the closing quote behind it. -/
theorem quotedWords_last {rest : List Char} (hword : word.all isLegible = true) (hspace : ' ' ∉ word)
    (h : c.rest = word.flatMap writeChar ++ '"' :: rest) (hcolumn : 0 < c.column) (fuel : Nat) :
    quotedWords false (fuel + 1) text c =
      .ok (text ++ word, c.pass ((word.flatMap writeChar).length + 1) rest) := by
  have hmarker := Cursor.atDocumentMarker_of_column_pos hcolumn
  have hempty : c.rest.isEmpty = false := by
    rw [h]
    cases word.flatMap writeChar <;> rfl
  have hread : doubleWord c.rest = .ok (word, '"' :: rest) := by
    rw [h]
    exact doubleWord_flatMap hword hspace (.inr rfl) rest
  have hmove := Cursor.moveTo_eq_pass h
  rw [quotedWords, hmarker, hempty]
  simp only [Bool.or_self, Bool.false_eq_true, if_false, hread, hmove]
  rw [Cursor.skip_eq_pass (c := c.pass _ ('"' :: rest)) rfl rfl, Cursor.pass_pass]
  rfl

/-- A word of a string, with the spaces behind it. -/
theorem quotedWords_word {n : Nat} {body : List Char} (hword : word.all isLegible = true)
    (hspace : ' ' ∉ word)
    (h : c.rest = word.flatMap writeChar ++ (List.replicate (n + 1) ' ' ++ body))
    (hbody : atGap body = false) (hcolumn : 0 < c.column) (fuel : Nat) :
    quotedWords false (fuel + 1) text c =
      quotedWords false fuel (text ++ (word ++ List.replicate (n + 1) ' '))
        (c.pass ((word.flatMap writeChar).length + (n + 1)) body) := by
  have hmarker := Cursor.atDocumentMarker_of_column_pos hcolumn
  have hempty : c.rest.isEmpty = false := by
    rw [h]
    cases word.flatMap writeChar <;> rfl
  have hread : doubleWord c.rest = .ok (word, List.replicate (n + 1) ' ' ++ body) := by
    rw [h]
    exact doubleWord_flatMap hword hspace (.inl rfl) _
  have hmove := Cursor.moveTo_eq_pass h
  -- the place behind the word
  generalize hat : c.pass (word.flatMap writeChar).length (List.replicate (n + 1) ' ' ++ body) = c'
    at hmove
  have hspaces : c'.rest = List.replicate (n + 1) ' ' ++ body := by
    rw [← hat]
    rfl
  have hscan : Gap.scan 0 c'.rest.length {} c' =
      .ok ({ spaces := List.replicate (n + 1) ' ' ++ [] }, c'.pass (n + 1) body) :=
    scan_replicate_space (by rw [hspaces]; simp) hspaces hbody
  have hfolded : Gap.folded { spaces := List.replicate (n + 1) ' ' ++ [] } =
      List.replicate (n + 1) ' ' := by
    simp [Gap.folded]
  have hhead : c'.rest.head? = some ' ' := by
    rw [hspaces]
    rfl
  have hquote : (some ' ' == some '"') = false := rfl
  have hslash : (some ' ' == some '\\') = false := rfl
  rw [quotedWords, hmarker, hempty]
  simp only [Bool.or_self, Bool.false_eq_true, if_false, hread, hmove, hhead, hquote, hslash, hscan,
    hfolded]
  rw [← hat, Cursor.pass_pass, List.append_assoc]

end Rounds

/-- The words of a string up to its closing quote. -/
theorem quotedWords_flatMap {cs : List Char} (hlegible : cs.all isLegible = true) {fuel : Nat}
    {text rest : List Char} {c : Cursor} (hfuel : cs.length < fuel)
    (h : c.rest = cs.flatMap writeChar ++ '"' :: rest) (hcolumn : 0 < c.column) :
    quotedWords false fuel text c =
      .ok (text ++ cs, c.pass ((cs.flatMap writeChar).length + 1) rest) := by
  -- Each round takes a word and the spaces behind it, so what is left is shorter.
  induction hlength : cs.length using Nat.strongRecOn generalizing cs fuel text c with
  | ind length ih =>
    obtain ⟨word, n, behind, rfl, hspace, hnone, hbehind⟩ := exists_word_spaces cs
    rw [List.all_append, List.all_append, Bool.and_eq_true, Bool.and_eq_true] at hlegible
    obtain ⟨hword, -, hrest⟩ := hlegible
    obtain ⟨fuel, rfl⟩ : ∃ k, fuel = k + 1 := ⟨fuel - 1, by omega⟩
    cases n with
    | zero =>
      obtain rfl := hnone rfl
      rw [List.replicate_zero, List.nil_append, List.append_nil] at h ⊢
      exact quotedWords_last hword hspace h hcolumn fuel
    | succ n =>
      have hshort : behind.length < length := by
        rw [← hlength]
        simp
        omega
      have hlen : ((word ++ (List.replicate (n + 1) ' ' ++ behind)).flatMap writeChar).length =
          (word.flatMap writeChar).length + (n + 1) + (behind.flatMap writeChar).length := by
        rw [List.flatMap_append, List.flatMap_append, flatMap_writeChar_replicate]
        simp [Nat.add_assoc]
      rw [List.flatMap_append, List.flatMap_append, flatMap_writeChar_replicate, List.append_assoc,
        List.append_assoc] at h
      rw [quotedWords_word hword hspace h (atGap_of_head_ne hrest hbehind rest) hcolumn,
        ih behind.length hshort hrest (by omega) rfl
          (Nat.lt_of_lt_of_le hcolumn (Nat.le_add_right _ _)) rfl, Cursor.pass_pass, hlen]
      simp [Nat.add_assoc]

theorem length_le_length_flatMap_writeChar (cs : List Char) :
    cs.length ≤ (cs.flatMap writeChar).length := by
  induction cs with
  | nil => exact Nat.le_refl 0
  | cons c cs ih =>
    have hpos : 1 ≤ (writeChar c).length := by
      rw [writeChar]
      split_ifs <;> simp
    rw [List.flatMap_cons, List.length_append, List.length_cons]
    omega

/-- A written string is scanned as the string; the place behind it is the end of what was written. -/
theorem scanQuoted_writeString {s : String} (h : s.toList.all isLegible = true) {rest : List Char}
    {c : Cursor} (hc : c.rest = writeString s ++ rest) :
    scanQuoted false c = .ok (s.toList, c.pass (writeString s).length rest) := by
  have htext : c.rest = '"' :: (s.toList.flatMap writeChar ++ '"' :: rest) := by
    rw [hc, writeString, List.cons_append, List.cons_append, List.append_assoc]
    rfl
  have hskip := Cursor.skip_eq_pass htext rfl
  have hshort := length_le_length_flatMap_writeChar s.toList
  have hfuel : s.toList.length < c.rest.length + 1 := by
    rw [htext, List.length_cons, List.length_append]
    omega
  have hwords : quotedWords false (c.rest.length + 1) [] c.skip =
      .ok ([] ++ s.toList, c.skip.pass ((s.toList.flatMap writeChar).length + 1) rest) := by
    refine quotedWords_flatMap h hfuel ?_ ?_
    · rw [hskip]
      rfl
    · rw [hskip]
      exact Nat.succ_pos _
  have hlength : (writeString s).length = 1 + ((s.toList.flatMap writeChar).length + 1) := by
    rw [writeString, List.cons_append, List.length_cons, List.length_append, Nat.add_comm]
    rfl
  rw [scanQuoted, hwords, hskip, Cursor.pass_pass, hlength]
  rfl

/-! ## Scalars without quotes -/

/-- A text that JSON writes without quotes: letters and digits, with a sign in front of digits. -/
structure IsBare (word : List Char) : Prop where
  chars : word.all isWordChar = true
  head : ∃ c cs, word = c :: cs ∧ (c = '-' → ∃ d ds, cs = d :: ds ∧ d ≠ '-')

theorem IsBare.ne_nil {word : List Char} (h : IsBare word) : word ≠ [] := by
  obtain ⟨c, cs, rfl, -⟩ := h.head
  exact List.cons_ne_nil c cs

theorem isWordChar_of_isDecimalDigit {c : Char} (h : isDecimalDigit c = true) :
    isWordChar c = true := by
  rw [isDecimalDigit] at h
  rw [isWordChar, h]
  rfl

/-- An integer is a word: digits, and a sign in front of them if it is negative. -/
theorem isBare_toString (n : Int) : IsBare (toString n).toList := by
  have hword : ∀ m, (Nat.toDigits 10 m).all isWordChar = true := fun m =>
    List.all_eq_true.mpr fun _ hd => isWordChar_of_isDecimalDigit (isDecimalDigit_of_mem_toDigits hd)
  have hdash : ∀ d, Text.isDecimalDigit d = true → d ≠ '-' := by
    rintro _ hd rfl
    exact absurd hd (by decide)
  cases n with
  | ofNat m =>
    obtain ⟨d, ds, hdigits, hd⟩ := exists_toDigits_eq_cons m
    rw [toList_toString_ofNat]
    exact ⟨hword m, d, ds, hdigits, fun heq => absurd heq (hdash d hd)⟩
  | negSucc m =>
    obtain ⟨d, ds, hdigits, hd⟩ := exists_toDigits_eq_cons (m + 1)
    rw [toList_toString_negSucc]
    exact ⟨hword (m + 1), '-', _, rfl, fun _ => ⟨d, ds, hdigits, hdash d hd⟩⟩

theorem isBare_null : IsBare "null".toList :=
  ⟨rfl, 'n', _, rfl, nofun⟩

theorem isBare_true : IsBare "true".toList :=
  ⟨rfl, 't', _, rfl, nofun⟩

theorem isBare_false : IsBare "false".toList :=
  ⟨rfl, 'f', _, rfl, nofun⟩

/-- The white space that JSON is written with. -/
def isJsonBlank (c : Char) : Bool :=
  c == ' ' || c == '\n'

theorem atGap_of_isJsonBlank {c : Char} (h : isJsonBlank c = true) (cs : List Char) :
    atGap (c :: cs) = true := by
  rw [isJsonBlank, Bool.or_eq_true, beq_iff_eq, beq_iff_eq] at h
  rcases h with rfl | rfl <;> rfl

/-- White space in front of a character that ends a value. -/
structure Delimited (text : List Char) (space : List Char) (c : Char) (rest : List Char) : Prop where
  eq : text = space ++ c :: rest
  space : space.all isJsonBlank = true
  close : c = ',' ∨ c = ']' ∨ c = '\x7d'

theorem contains_eq_false_of_isWordChar {c : Char} (h : isWordChar c = true) {cs : List Char}
    (hcs : cs.any isWordChar = false) : cs.contains c = false := by
  rw [List.contains_eq_mem, decide_eq_false_iff_not]
  intro hmem
  have hany := List.any_eq_true.mpr ⟨c, hmem, h⟩
  rw [hcs] at hany
  exact Bool.noConfusion hany

theorem isWordChar_spec {c : Char} (h : isWordChar c = true) (cs : List Char) :
    atGap (c :: cs) = false ∧ (c == ':') = false ∧ ",[]\x7b\x7d".toList.contains c = false := by
  refine ⟨?_, ?_, ?_⟩
  · simp [atGap, isSpaceTab, isBreak, ne_of_class h (d := ' ') (by decide),
      ne_of_class h (d := '\t') (by decide), ne_of_class h (d := '\n') (by decide),
      ne_of_class h (d := '\u2028') (by decide), ne_of_class h (d := '\u2029') (by decide)]
  · simpa using ne_of_class h (d := ':') (by decide)
  · exact contains_eq_false_of_isWordChar h (by decide)

theorem isSettled_of_isWordChar {c : Char} (h : isWordChar c = true) : isSettled c = true := by
  have between : ∀ {low high : Char}, 0x20 ≤ low.toNat → low ≤ c → c ≤ high → high.toNat ≤ 0x7e →
      0x20 ≤ c.toNat ∧ c.toNat ≤ 0x7e :=
    fun hlow hlc hch hhigh => ⟨Nat.le_trans hlow hlc, Nat.le_trans hch hhigh⟩
  have hrange : 0x20 ≤ c.toNat ∧ c.toNat ≤ 0x7e := by
    simp only [isWordChar, Bool.or_eq_true, Bool.and_eq_true, decide_eq_true_eq, beq_iff_eq] at h
    rcases h with (((⟨hlow, hhigh⟩ | ⟨hlow, hhigh⟩) | ⟨hlow, hhigh⟩) | rfl) | rfl
    · exact between (by decide) hlow hhigh (by decide)
    · exact between (by decide) hlow hhigh (by decide)
    · exact between (by decide) hlow hhigh (by decide)
    · decide
    · decide
  simp [isSettled, isAllowed, hrange, ne_of_class h (d := '\r') (by decide),
    ne_of_class h (d := '\u0085') (by decide)]

theorem IsBare.all_isSettled {word : List Char} (h : IsBare word) : word.all isSettled = true :=
  List.all_eq_true.mpr fun c hc => isSettled_of_isWordChar (List.all_eq_true.mp h.chars c hc)

section Plain

variable {word text space rest : List Char} {d : Char}

theorem Delimited.atGap_eq_false (h : Delimited text space d rest) : atGap (d :: rest) = false := by
  rcases h.close with rfl | rfl | rfl <;> rfl

/-- A word is read up to where a plain scalar ends. -/
theorem plainWord_append {flow : Bool} (hword : word.all isWordChar = true)
    (htext : plainWord flow text = .ok ([], text)) :
    plainWord flow (word ++ text) = .ok (word, text) := by
  induction word with
  | nil => exact htext
  | cons c word ih =>
    rw [List.all_cons, Bool.and_eq_true] at hword
    obtain ⟨hgap, hcolon, hflow⟩ := isWordChar_spec hword.1 (word ++ text)
    rw [List.cons_append, plainWord, ih hword.2]
    simp only [hgap, hcolon, hflow]
    simp

theorem plainWord_cons_close (h : Delimited text space d rest) :
    plainWord true (d :: rest) = .ok ([], d :: rest) := by
  rcases h.close with rfl | rfl | rfl <;> rfl

theorem Delimited.eq_or_atGap (h : Delimited text space d rest) :
    text = d :: rest ∨ (atGap text = true ∧ text.isEmpty = false) := by
  obtain ⟨rfl, hspace, -⟩ := h
  cases space with
  | nil => exact .inl rfl
  | cons e space =>
    rw [List.all_cons, Bool.and_eq_true] at hspace
    exact .inr ⟨atGap_of_isJsonBlank hspace.1 _, rfl⟩

/-- A plain scalar within brackets ends where a value does. -/
theorem Delimited.plainWord_eq (h : Delimited text space d rest) :
    plainWord true text = .ok ([], text) := by
  rcases h.eq_or_atGap with htext | ⟨hgap, -⟩
  · rw [htext]
    exact plainWord_cons_close h
  · cases text with
    | nil => rfl
    | cons e text => rw [plainWord, if_pos hgap]

/-- White space is passed as a gap. -/
theorem exists_scan_space {indent fuel : Nat} {g : Gap} {c : Cursor} (hfuel : space.length ≤ fuel)
    (hspace : space.all isJsonBlank = true) (h : c.rest = space ++ d :: rest)
    (hd : atGap (d :: rest) = false) :
    ∃ g' c', Gap.scan indent fuel g c = .ok (g', c') ∧ c'.rest = d :: rest := by
  induction space generalizing fuel g c with
  | nil =>
    rw [List.nil_append] at h
    exact ⟨g, c, scan_of_not_atGap (by rwa [h]), h⟩
  | cons e space ih =>
    cases fuel with
    | zero => exact absurd hfuel (Nat.not_succ_le_zero _)
    | succ fuel =>
      have hrest : c.skip.rest = space ++ d :: rest := by
        rw [Cursor.skip, h, List.cons_append]
        dsimp only
        split <;> rfl
      rw [List.all_cons, Bool.and_eq_true, isJsonBlank, Bool.or_eq_true, beq_iff_eq,
        beq_iff_eq] at hspace
      have hnext := fun g => ih (g := g) (Nat.le_of_succ_le_succ hfuel) hspace.2 hrest
      rw [Gap.scan, h, List.cons_append]
      rcases hspace.1 with rfl | rfl
      · simpa [isSpaceTab] using hnext _
      · simpa [isSpaceTab, isBreak] using hnext _

theorem IsBare.atDocumentMarker_eq_false {c : Cursor} (hword : IsBare word)
    (hc : c.rest = word ++ text) :
    c.atDocumentMarker = false := by
  obtain ⟨a, tail, rfl, hdash⟩ := hword.head
  have ha : isWordChar a = true := List.all_eq_true.mp hword.chars a List.mem_cons_self
  have hdot : c.atMarker '.' = false :=
    Cursor.atMarker_of_head_ne hc (ne_of_class ha (by decide))
  have hminus : c.atMarker '-' = false := by
    by_cases hsign : a = '-'
    · obtain ⟨e, es, rfl, he⟩ := hdash hsign
      rw [Cursor.atMarker]
      split
      · rename_i x y z _ heq
        rw [hc] at heq
        obtain ⟨-, heq⟩ := List.cons.inj heq
        obtain ⟨rfl, -⟩ := List.cons.inj heq
        simp [he]
      · rfl
    · exact Cursor.atMarker_of_head_ne hc hsign
  rw [Cursor.atDocumentMarker, hminus, hdot]
  rfl

/-- Behind the white space a plain scalar ends, since another value or the end of one follows. -/
theorem exists_plainWords_close {indent : Nat} {g : Gap} {c : Cursor} (h : Delimited text space d rest)
    (hc : c.rest = d :: rest) (fuel : Nat) :
    ∃ c', plainWords true indent fuel word g c = .ok (word, c', g.broken) ∧ c'.rest = d :: rest := by
  have hne : ∀ e, e ≠ ',' → e ≠ ']' → e ≠ '\x7d' → d ≠ e := by
    rintro e h1 h2 h3 rfl
    rcases h.close with hd | hd | hd <;> contradiction
  cases fuel with
  | zero => exact ⟨c, rfl, hc⟩
  | succ fuel =>
    have hmark : c.atDocumentMarker = false := by
      rw [Cursor.atDocumentMarker,
        Cursor.atMarker_of_head_ne hc (hne '-' (by decide) (by decide) (by decide)),
        Cursor.atMarker_of_head_ne hc (hne '.' (by decide) (by decide) (by decide))]
      rfl
    have hhash : ((d :: rest).head? == some '#') = false := by
      simpa using hne '#' (by decide) (by decide) (by decide)
    refine ⟨c.moveTo (d :: rest), ?_, rfl⟩
    rw [plainWords, hmark, hc, hhash, plainWord_cons_close h]
    simp [Cursor.moveTo, h.atGap_eq_false]

/-- The first word of a plain scalar; if white space follows it, there may be more. -/
theorem scanPlain_eq {flow : Bool} {indent : Nat} {c : Cursor} (hword : IsBare word)
    (htext : plainWord flow text = .ok ([], text)) (hc : c.rest = word ++ text) :
    scanPlain flow indent c =
      if text.isEmpty || !atGap text then .ok (word, c.pass word.length text, false)
      else
        match Gap.scan indent text.length {} (c.pass word.length text) with
        | .error fault => .error fault
        | .ok (g, c') =>
          if !flow && c'.column < indent then .ok (word, c', g.broken)
          else plainWords flow indent c.rest.length word g c' := by
  have hmark := hword.atDocumentMarker_eq_false hc
  have hread : plainWord flow c.rest = .ok (word, text) := by
    rw [hc]
    exact plainWord_append hword.chars htext
  have hmove := Cursor.moveTo_eq_pass hc
  obtain ⟨a, tail, rfl, -⟩ := hword.head
  have ha : isWordChar a = true := List.all_eq_true.mp hword.chars a List.mem_cons_self
  have hhash : (c.rest.head? == some '#') = false := by
    rw [hc]
    simpa using ne_of_class ha (d := '#') (by decide)
  have hrest : (c.pass (a :: tail).length text).rest = text := rfl
  rw [scanPlain, plainWords, hmark, hhash, hread]
  simp only [Bool.or_self, Bool.false_eq_true, if_false, List.isEmpty_cons, hmove, hrest]
  rfl

/-- A word at the end of the text. -/
theorem scanPlain_of_isBare_end (flow : Bool) (indent : Nat) {c : Cursor} (hword : IsBare word)
    (hc : c.rest = word) : scanPlain flow indent c = .ok (word, c.pass word.length [], false) := by
  have htext : c.rest = word ++ [] := hc.trans (List.append_nil word).symm
  have hend : plainWord flow [] = .ok ([], []) := rfl
  rw [scanPlain_eq hword hend htext]
  rfl

/-- A plain scalar within brackets is scanned up to what follows the white space behind it. -/
theorem scanPlain_of_isBare (indent : Nat) {c : Cursor} (hword : IsBare word)
    (h : Delimited text space d rest) (hc : c.rest = word ++ text) :
    ∃ c' broken, scanPlain true indent c = .ok (word, c', broken) ∧ c'.rest = d :: rest := by
  rw [scanPlain_eq hword h.plainWord_eq hc]
  rcases h.eq_or_atGap with htext | ⟨hgap, hempty⟩
  · refine ⟨c.pass word.length text, false, ?_, htext⟩
    simp [htext, h.atGap_eq_false]
  · have hlength : space.length ≤ text.length := by
      rw [h.eq, List.length_append]
      exact Nat.le_add_right _ _
    obtain ⟨g, c', hscan, hc'⟩ : ∃ g c',
        Gap.scan indent text.length {} (c.pass word.length text) = .ok (g, c') ∧ c'.rest = d :: rest :=
      exists_scan_space hlength h.space h.eq h.atGap_eq_false
    obtain ⟨c'', hclose, hc''⟩ : ∃ c'',
        plainWords true indent c.rest.length word g c' = .ok (word, c'', g.broken) ∧
          c''.rest = d :: rest := exists_plainWords_close h hc' _
    exact ⟨c'', g.broken, by simp [hgap, hempty, hscan, hclose], hc''⟩

end Plain

end Redeclare.Yaml
