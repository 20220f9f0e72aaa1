import Redeclare.Proofs.Modifiers.Text
import Redeclare.Proofs.Reading.Run

/-!
# The grammar of modifier sets

Which texts are modifier sets, and of which set each of them is a text.

* `Modifiers.Word` are the words for sets: the names of the flags, and numbers of
  16 bits.  `Modifiers.IsPart` allows white space around a word, and
  `Modifiers.Spells` goes through the parts of a text.
* `readPart_eq_ok_iff` reads a word, and `read_eq_ok_iff` a whole text.
* `foldl_union_eq` says that only the sets matter that are united, not their
  order or number.
* `read_iff_parts_are_words` puts them together.
-/

namespace Redeclare

namespace Modifiers

open Text

/-! ## Words -/

/-- The digits of a number of 16 bits: either case, zeros in front, and a plus sign before them are
allowed. -/
def IsNumeral (cs : List Char) (m : Modifiers) : Prop :=
  ∃ digits ds, (cs = digits ∨ cs = '+' :: digits) ∧ digits ≠ [] ∧ List.Forall₂ IsHexDigit digits ds ∧
    Nat.ofDigits 16 ds.reverse < 0x10000 ∧ m = ofNat (Nat.ofDigits 16 ds.reverse)

/-- A word for a set: the name of a flag, or a numeral behind `0x`. -/
inductive Word : List Char → Modifiers → Prop where
  | name (f : Flag) : Word f.name.toList f.mask
  | number {cs : List Char} {m : Modifiers} (h : IsNumeral cs m) : Word ('0' :: 'x' :: cs) m

/-- A word for a set with white space around it. -/
def IsPart (part : List Char) (m : Modifiers) : Prop :=
  ∃ before word after, part = before ++ word ++ after ∧ (∀ c ∈ before, isBlank c = true) ∧
    (∀ c ∈ after, isBlank c = true) ∧ Word word m

/-- The parts of a text, which `|` separates, are these sets. -/
def Spells (text : String) (sets : List Modifiers) : Prop :=
  List.Forall₂ IsPart (text.toList.splitOn '|') sets

theorem ofName?_eq_some_iff {name : String} {f : Flag} : Flag.ofName? name = some f ↔ f.name = name := by
  constructor
  · intro h
    simpa using List.find?_some h
  · rintro rfl
    cases f <;> rfl

/-- The set of a number, if it has 16 bits. -/
def ofNumber? (n : Nat) : Option Modifiers :=
  if n < 0x10000 then some (ofNat n) else none

theorem readHex_plus (digits : List Char) :
    readHex ('+' :: digits) = (readNumeral 16 digits).bind ofNumber? := by
  rw [readHex]
  cases readNumeral 16 digits <;> rfl

theorem readHex_of_ne_plus {digits : List Char} (h : ∀ rest, digits = '+' :: rest → False) :
    readHex digits = (readNumeral 16 digits).bind ofNumber? := by
  rw [readHex]
  · cases readNumeral 16 digits <;> rfl
  · exact h

theorem ofNumber?_eq_some_iff {n : Nat} {m : Modifiers} :
    ofNumber? n = some m ↔ n < 0x10000 ∧ m = ofNat n := by
  rw [ofNumber?, Option.ite_none_right_eq_some, Option.some.injEq, eq_comm (a := m)]

theorem bind_ofNumber?_eq_some_iff {digits : List Char} {m : Modifiers} :
    (readNumeral 16 digits).bind ofNumber? = some m ↔ digits ≠ [] ∧
      ∃ ds, List.Forall₂ IsHexDigit digits ds ∧ Nat.ofDigits 16 ds.reverse < 0x10000 ∧
        m = ofNat (Nat.ofDigits 16 ds.reverse) := by
  simp only [Option.bind_eq_some_iff, readNumeral_eq_some_iff, ofNumber?_eq_some_iff]
  constructor
  · rintro ⟨_, ⟨hne, ds, hds, rfl⟩, hfits, hm⟩
    exact ⟨hne, ds, hds, hfits, hm⟩
  · rintro ⟨hne, ds, hds, hfits, hm⟩
    exact ⟨_, ⟨hne, ds, hds, rfl⟩, hfits, hm⟩

/-- A plus sign is no digit, so digits do not start with one. -/
theorem ne_plus_of_forall₂ {digits : List Char} {ds : List Nat}
    (h : List.Forall₂ IsHexDigit digits ds) (rest : List Char) : digits = '+' :: rest → False := by
  rintro rfl
  obtain ⟨d, -, hd, -, -⟩ := List.forall₂_cons_left_iff.mp h
  exact nomatch (digitValue?_eq_some_iff.mpr hd : digitValue? '+' = some d)

theorem readHex_eq_some_iff {cs : List Char} {m : Modifiers} : readHex cs = some m ↔ IsNumeral cs m := by
  constructor
  · intro h
    by_cases hplus : ∃ rest, cs = '+' :: rest
    · obtain ⟨rest, rfl⟩ := hplus
      rw [readHex_plus, bind_ofNumber?_eq_some_iff] at h
      obtain ⟨hne, ds, hds, hfits, hm⟩ := h
      exact ⟨rest, ds, .inr rfl, hne, hds, hfits, hm⟩
    · rw [readHex_of_ne_plus fun rest hrest => hplus ⟨rest, hrest⟩, bind_ofNumber?_eq_some_iff] at h
      obtain ⟨hne, ds, hds, hfits, hm⟩ := h
      exact ⟨cs, ds, .inl rfl, hne, hds, hfits, hm⟩
  · rintro ⟨digits, ds, rfl | rfl, hne, hds, hfits, hm⟩
    · rw [readHex_of_ne_plus (ne_plus_of_forall₂ hds), bind_ofNumber?_eq_some_iff]
      exact ⟨hne, ds, hds, hfits, hm⟩
    · rw [readHex_plus, bind_ofNumber?_eq_some_iff]
      exact ⟨hne, ds, hds, hfits, hm⟩

theorem readPart_eq_ok_iff {part : List Char} {m : Modifiers} : readPart part = .ok m ↔ Word part m := by
  constructor
  · intro h
    unfold readPart at h
    split at h
    · exact nomatch h
    · split at h
      · rename_i n hread
        obtain rfl := Except.ok.inj h
        exact .number (readHex_eq_some_iff.mp hread)
      · exact nomatch h
    · split at h
      · rename_i f hname
        obtain rfl := Except.ok.inj h
        have hpart : f.name.toList = part := by
          rw [ofName?_eq_some_iff.mp hname, String.toList_ofList]
        exact hpart ▸ .name f
      · exact nomatch h
  · rintro (f | hnumeral)
    · exact readPart_name f
    · rw [readPart, readHex_eq_some_iff.mpr hnumeral]

theorem Word.ne_nil {word : List Char} {m : Modifiers} (h : Word word m) : word ≠ [] := by
  cases h with
  | name f => cases f <;> exact List.cons_ne_nil _ _
  | number _ => exact List.cons_ne_nil _ _

theorem Word.not_isBlank {word : List Char} {m : Modifiers} (h : Word word m) :
    ∀ c ∈ word, isBlank c = false := by
  have hdigit : ∀ d < 16, isBlank (hexDigit d) = false ∧ isBlank (hexDigitUpper d) = false := by decide
  cases h with
  | name f => exact fun c hc => (solid_name f c hc).1
  | @number cs _ hnumeral =>
    obtain ⟨digits, ds, hcs, -, hds, -⟩ := hnumeral
    have hdigits : ∀ c ∈ digits, isBlank c = false := by
      intro c hc
      obtain ⟨d, -, hlt, rfl | rfl⟩ := exists_mem_of_forall₂ hds hc
      · exact (hdigit d hlt).1
      · exact (hdigit d hlt).2
    have hall : ∀ c ∈ cs, isBlank c = false := by
      rcases hcs with rfl | rfl
      · exact hdigits
      · exact List.forall_mem_cons.mpr ⟨rfl, hdigits⟩
    exact List.forall_mem_cons.mpr ⟨rfl, List.forall_mem_cons.mpr ⟨rfl, hall⟩⟩

theorem readPart_trim_eq_ok_iff {part : List Char} {m : Modifiers} :
    readPart (trim part) = .ok m ↔ IsPart part m := by
  rw [readPart_eq_ok_iff]
  constructor
  · intro h
    obtain ⟨before, after, hpart, hbefore, hafter⟩ := exists_eq_append_trim_append part
    exact ⟨before, _, after, hpart, hbefore, hafter, h⟩
  · rintro ⟨before, word, after, rfl, hbefore, hafter, hword⟩
    rwa [trim_append_append hword.not_isBlank hbefore hafter]

/-! ## Texts -/

theorem readParts_eq_ok_iff {parts : List (List Char)} {m n : Modifiers} : readParts m parts = .ok n ↔
    ∃ sets, List.Forall₂ IsPart parts sets ∧ n = sets.foldl union m := by
  induction parts generalizing m with
  | nil => simp [readParts, List.forall₂_nil_left_iff, eq_comm]
  | cons part parts ih =>
    rw [readParts]
    constructor
    · intro h
      split at h
      · rename_i k hpart
        obtain ⟨sets, hsets, rfl⟩ := ih.mp h
        exact ⟨k :: sets, .cons (readPart_trim_eq_ok_iff.mp hpart) hsets, rfl⟩
      · cases h
    · rintro ⟨_, hall, rfl⟩
      obtain ⟨k, sets, hpart, hsets, rfl⟩ := List.forall₂_cons_left_iff.mp hall
      rw [readPart_trim_eq_ok_iff.mpr hpart]
      exact ih.mpr ⟨sets, hsets, rfl⟩

/-- A blank text is its only part, and no word is in it. -/
theorem not_spells_of_blank {text : String} (h : ∀ c ∈ text.toList, isBlank c = true)
    (sets : List Modifiers) : ¬ Spells text sets := by
  have hbar : '|' ∉ text.toList := fun hmem => absurd (h '|' hmem) (by decide)
  rw [Spells, ← splitAt_eq_splitOn, splitAt_of_notMem hbar]
  rintro (_ | ⟨⟨before, word, after, hpart, -, -, hword⟩, -⟩)
  obtain ⟨c, hc⟩ := List.exists_mem_of_ne_nil word hword.ne_nil
  have hmem : c ∈ text.toList := by
    rw [hpart]
    exact List.mem_append_left _ (List.mem_append_right _ hc)
  exact absurd (h c hmem) (by simp [hword.not_isBlank c hc])

theorem read_eq_ok_iff {text : String} {m : Modifiers} : read text = .ok m ↔
    ((∀ c ∈ text.toList, isBlank c = true) ∧ m = empty) ∨
      ∃ sets, Spells text sets ∧ m = sets.foldl union empty := by
  by_cases hblank : ∀ c ∈ text.toList, isBlank c = true
  · have hread : read text = .ok empty := if_pos (List.all_eq_true.mpr hblank)
    constructor
    · intro h
      exact .inl ⟨hblank, (Except.ok.inj (hread.symm.trans h)).symm⟩
    · rintro (⟨-, rfl⟩ | ⟨sets, hsets, -⟩)
      · exact hread
      · exact absurd hsets (not_spells_of_blank hblank sets)
  · have hread : read text = readParts empty (splitAt '|' text.toList) :=
      if_neg (by rwa [List.all_eq_true])
    rw [hread, readParts_eq_ok_iff, splitAt_eq_splitOn]
    exact (or_iff_right fun h => hblank h.1).symm

theorem foldl_union_eq {sets sets' : List Modifiers} (h : ∀ m, m ∈ sets ↔ m ∈ sets') :
    sets.foldl union empty = sets'.foldl union empty := by
  apply ext_bit
  intro i
  have hany : (sets.any fun m => m.bits.getLsbD i) = sets'.any fun m => m.bits.getLsbD i := by
    rw [Bool.eq_iff_iff]
    simp only [List.any_eq_true, h]
  rw [getLsbD_foldl_union, getLsbD_foldl_union, hany]

/-- A text is read exactly if it is blank or all of its parts are words, as the union of the sets that
they are words for.  Order, repetition and padding of the parts make no difference, nor does another
word for the same set.  Every set is read from the text that is written for it. -/
theorem read_iff_parts_are_words (text : String) :
    (∀ m, read text = .ok m ↔ ((∀ c ∈ text.toList, isBlank c = true) ∧ m = empty) ∨
      ∃ sets, Spells text sets ∧ m = sets.foldl union empty) ∧
    (∀ text' sets sets', Spells text sets → Spells text' sets' → (∀ m, m ∈ sets ↔ m ∈ sets') →
      read text' = read text) ∧
    ∀ m, read m.write = .ok m := by
  refine ⟨fun m => read_eq_ok_iff, ?_, read_write⟩
  intro text' sets sets' hsets hsets' hsame
  have hread : read text = .ok (sets.foldl union empty) := read_eq_ok_iff.mpr (.inr ⟨sets, hsets, rfl⟩)
  have hread' : read text' = .ok (sets'.foldl union empty) :=
    read_eq_ok_iff.mpr (.inr ⟨sets', hsets', rfl⟩)
  rw [hread, hread', foldl_union_eq hsame]

/-- Two texts with the same parts in another order and with other words and padding. -/
theorem read_iff_parts_are_words_of_padded :
    let text := " PUBLIC|0x+00C000 |PUBLIC"
    let text' := "0xc000|\tPUBLIC"
    let number : Modifiers := .ofNat 0xc000
    Spells text [Flag.accPublic.mask, number, Flag.accPublic.mask] ∧
      Spells text' [number, Flag.accPublic.mask] ∧ read text' = read text ∧
      read text = .ok (.ofNat 0xc001) := by
  intro text text' number
  have hpublic : Word "PUBLIC".toList Flag.accPublic.mask := .name .accPublic
  have hplus : Word "0x+00C000".toList number := .number (readHex_eq_some_iff.mp (by decide))
  have hplain : Word "0xc000".toList number := .number (readHex_eq_some_iff.mp (by decide))
  have hsplit : text.toList.splitOn '|' =
      [" PUBLIC".toList, "0x+00C000 ".toList, "PUBLIC".toList] := by decide
  have hsplit' : text'.toList.splitOn '|' = ["0xc000".toList, "\tPUBLIC".toList] := by decide
  have hnone : ∀ c ∈ ([] : List Char), isBlank c = true := List.forall_mem_nil _
  have hspace : ∀ c ∈ [' '], isBlank c = true := List.forall_mem_singleton.mpr (by decide)
  have htab : ∀ c ∈ ['\t'], isBlank c = true := List.forall_mem_singleton.mpr (by decide)
  have hsets : Spells text [Flag.accPublic.mask, number, Flag.accPublic.mask] := by
    rw [Spells, hsplit]
    exact .cons ⟨_, _, _, rfl, hspace, hnone, hpublic⟩
      (.cons ⟨_, _, _, rfl, hnone, hspace, hplus⟩ (.cons ⟨_, _, _, rfl, hnone, hnone, hpublic⟩ .nil))
  have hsets' : Spells text' [number, Flag.accPublic.mask] := by
    rw [Spells, hsplit']
    exact .cons ⟨_, _, _, rfl, hnone, hnone, hplain⟩ (.cons ⟨_, _, _, rfl, htab, hnone, hpublic⟩ .nil)
  have hsame : ∀ m, m ∈ [Flag.accPublic.mask, number, Flag.accPublic.mask] ↔
      m ∈ [number, Flag.accPublic.mask] := fun m => List.mem_cons.trans
    (or_iff_right_of_imp fun h => h ▸ List.mem_cons_of_mem _ List.mem_cons_self)
  obtain ⟨hread, hunion, -⟩ := read_iff_parts_are_words text
  exact ⟨hsets, hsets', hunion text' _ _ hsets hsets' hsame, (hread _).mpr (.inr ⟨_, hsets, by decide⟩)⟩

end Modifiers

end Redeclare
