import Redeclare.Text.Blank

/-!
# Splitting and trimming texts

What is joined with a separator is taken apart again at the separator, and a
text without white space at its ends is not changed by trimming.

* `splitAt_append_cons` ends a part where the separator stands, and
  `splitAt_eq_splitOn` compares with the splitting of lists.
* `trim_eq_self` and `trim_append_blank` cut off white space and nothing else, and
  `exists_eq_append_trim_append` says what is cut off.
* `map_trim_splitAt_join` takes a joined text apart.
-/

namespace Redeclare.Text

/-! ## Separators -/

theorem exists_splitAt_eq_cons (separator : Char) (cs : List Char) :
    ∃ part parts, splitAt separator cs = part :: parts := by
  fun_cases splitAt separator cs <;> grind [splitAt]

theorem splitAt_cons_of_ne {separator c : Char} (h : c ≠ separator) (cs : List Char) :
    ∃ part parts, splitAt separator cs = part :: parts ∧
      splitAt separator (c :: cs) = (c :: part) :: parts := by
  obtain ⟨part, parts, hsplit⟩ := exists_splitAt_eq_cons separator cs
  refine ⟨part, parts, hsplit, ?_⟩
  rw [splitAt, hsplit]
  exact if_neg h

/-- A part ends where the separator stands. -/
theorem splitAt_append_cons {separator : Char} {part : List Char} (h : separator ∉ part)
    (cs : List Char) : splitAt separator (part ++ separator :: cs) = part :: splitAt separator cs := by
  induction part with
  | nil =>
    obtain ⟨first, parts, hsplit⟩ := exists_splitAt_eq_cons separator cs
    rw [List.nil_append, splitAt, hsplit]
    exact if_pos rfl
  | cons c part ih =>
    rw [List.mem_cons, not_or] at h
    rw [List.cons_append, splitAt, ih h.2]
    exact if_neg (Ne.symm h.1)

theorem splitAt_of_notMem {separator : Char} {part : List Char} (h : separator ∉ part) :
    splitAt separator part = [part] := by
  induction part with
  | nil => rfl
  | cons c part ih =>
    rw [List.mem_cons, not_or] at h
    rw [splitAt, ih h.2]
    exact if_neg (Ne.symm h.1)

/-- Splitting a text is splitting its list of characters. -/
theorem splitAt_eq_splitOn (separator : Char) (cs : List Char) :
    splitAt separator cs = cs.splitOn separator := by
  induction cs with
  | nil => exact (List.splitOn_nil separator).symm
  | cons c cs ih =>
    rw [List.splitOn, List.splitOnP_cons_eq_if_modifyHead, ← List.splitOn, ← ih]
    by_cases hc : c = separator
    · rw [if_pos (by simpa using hc), hc]
      exact splitAt_append_cons List.not_mem_nil cs
    · obtain ⟨part, parts, hsplit, hcons⟩ := splitAt_cons_of_ne hc cs
      rw [if_neg (by simpa using hc), hcons, hsplit, List.modifyHead_cons]

/-! ## White space -/

theorem dropWhile_eq_self {cs : List Char} (h : ∀ c ∈ cs.head?, isBlank c = false) :
    cs.dropWhile isBlank = cs := by
  cases cs with
  | nil => rfl
  | cons c cs => exact List.dropWhile_cons_of_neg (by simp [h c rfl])

theorem trimEnd_eq_self {cs : List Char} (h : ∀ c ∈ cs.getLast?, isBlank c = false) :
    trimEnd cs = cs := by
  rw [← List.head?_reverse] at h
  rw [trimEnd, dropWhile_eq_self h, List.reverse_reverse]

theorem trim_eq_self {cs : List Char} (h : ∀ c ∈ cs, isBlank c = false) : trim cs = cs := by
  rw [trim, dropWhile_eq_self fun c hc => h c (List.mem_of_mem_head? hc)]
  exact trimEnd_eq_self fun c hc => h c (List.mem_of_mem_getLast? hc)

theorem trimEnd_append_blank (cs : List Char) {c : Char} (h : isBlank c = true) :
    trimEnd (cs ++ [c]) = trimEnd cs := by
  rw [trimEnd, List.reverse_append, List.reverse_singleton, List.singleton_append,
    List.dropWhile_cons_of_pos h, trimEnd]

theorem trim_append_blank {cs : List Char} (h : ∀ c ∈ cs, isBlank c = false) {b : Char}
    (hb : isBlank b = true) : trim (cs ++ [b]) = cs := by
  cases cs with
  | nil =>
    rw [List.nil_append, trim, List.dropWhile_cons_of_pos hb]
    rfl
  | cons c cs =>
    have hc : isBlank c = false := h c List.mem_cons_self
    have hstart : trim (c :: (cs ++ [b])) = trimEnd (c :: cs ++ [b]) := by
      rw [trim, List.dropWhile_cons_of_neg (by simp [hc])]
      rfl
    rw [List.cons_append, hstart, trimEnd_append_blank _ hb]
    exact trimEnd_eq_self fun d hd => h d (List.mem_of_mem_getLast? hd)

theorem trimEnd_append_of_blank (cs : List Char) {after : List Char}
    (h : ∀ c ∈ after, isBlank c = true) : trimEnd (cs ++ after) = trimEnd cs := by
  induction after generalizing cs with
  | nil => rw [List.append_nil]
  | cons c after ih =>
    rw [List.forall_mem_cons] at h
    rw [List.append_cons, ih (cs ++ [c]) h.2, trimEnd_append_blank cs h.1]

/-- A text without white space is what is left of it with white space around it. -/
theorem trim_append_append {before word after : List Char} (hword : ∀ c ∈ word, isBlank c = false)
    (hbefore : ∀ c ∈ before, isBlank c = true) (hafter : ∀ c ∈ after, isBlank c = true) :
    trim (before ++ word ++ after) = word := by
  rw [trim, List.append_assoc, List.dropWhile_append_of_pos hbefore]
  cases word with
  | nil =>
    rw [List.nil_append, ← List.append_nil after, List.dropWhile_append_of_pos hafter]
    rfl
  | cons c word =>
    rw [List.cons_append, List.dropWhile_cons_of_neg (by simp [hword c List.mem_cons_self]),
      ← List.cons_append, trimEnd_append_of_blank _ hafter]
    exact trimEnd_eq_self fun d hd => hword d (List.mem_of_mem_getLast? hd)

/-- What is cut off a text at either end is white space. -/
theorem exists_eq_append_trim_append (cs : List Char) : ∃ before after,
    cs = before ++ trim cs ++ after ∧ (∀ c ∈ before, isBlank c = true) ∧
      ∀ c ∈ after, isBlank c = true := by
  obtain ⟨after, hcs, hafter⟩ := exists_eq_trimEnd_append (cs.dropWhile isBlank)
  refine ⟨cs.takeWhile isBlank, after, ?_, fun c hc => ?_, hafter⟩
  · rw [trim, List.append_assoc, ← hcs, List.takeWhile_append_dropWhile]
  · exact List.all_eq_true.mp List.all_takeWhile c hc

/-- White space in front of a text does not change its parts but for white space around them. -/
theorem map_trim_splitAt_cons {separator c : Char} (hc : isBlank c = true) (hne : c ≠ separator)
    (cs : List Char) : (splitAt separator (c :: cs)).map trim = (splitAt separator cs).map trim := by
  obtain ⟨part, parts, hsplit, hcons⟩ := splitAt_cons_of_ne hne cs
  have htrim : trim (c :: part) = trim part := by
    rw [trim, trim, List.dropWhile_cons_of_pos hc]
  rw [hcons, hsplit, List.map_cons, List.map_cons, htrim]

/-! ## Joined texts -/

theorem exists_join_eq_append (separator part : String) (parts : List String) :
    ∃ tail, join separator (part :: parts) = part ++ tail := by
  cases parts with
  | nil => exact ⟨"", (String.append_empty).symm⟩
  | cons next parts => exact ⟨separator ++ join separator (next :: parts), String.append_assoc⟩

/-- Parts without white space and without the separator are found again in their joined text. -/
theorem map_trim_splitAt_join {parts : List String} (hne : parts ≠ [])
    (h : ∀ part ∈ parts, ∀ c ∈ part.toList, isBlank c = false ∧ c ≠ '|') :
    (splitAt '|' (join " | " parts).toList).map trim = parts.map String.toList := by
  induction parts with
  | nil => exact absurd rfl hne
  | cons part parts ih =>
    have hpart := h part List.mem_cons_self
    have hsolid : ∀ c ∈ part.toList, isBlank c = false := fun c hc => (hpart c hc).1
    have hbar : '|' ∉ part.toList := fun hc => (hpart '|' hc).2 rfl
    cases parts with
    | nil => rw [join, splitAt_of_notMem hbar, List.map_singleton, trim_eq_self hsolid]; rfl
    | cons next parts =>
      have htext : (join " | " (part :: next :: parts)).toList =
          (part.toList ++ [' ']) ++ '|' :: ' ' :: (join " | " (next :: parts)).toList := by
        simp [join]
      have hbar' : '|' ∉ part.toList ++ [' '] := by simpa using hbar
      rw [htext, splitAt_append_cons hbar', List.map_cons, map_trim_splitAt_cons rfl (by decide),
        ih (by simp) fun p hp => h p (List.mem_cons_of_mem _ hp), trim_append_blank hsolid rfl]
      rfl

end Redeclare.Text
