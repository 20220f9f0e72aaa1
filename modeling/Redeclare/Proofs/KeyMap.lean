import Mathlib.Data.List.Basic
import Mathlib.Data.String.Basic
import Redeclare.KeyMap

/-!
# What a map holds

A map is known by the value of each key.  An insertion sets the value of one key
and keeps the others, the map of a list of pairs has the last value of each key,
and the first entry of a map is that of its least key.  Pairs with different
keys may stand in any order.
-/

namespace Redeclare

variable {α : Type} {key key' : String} {value : α} {entries rest : List (String × α)}

/-- The entries are in the order of their keys, each of which stands once. -/
def InOrder (entries : List (String × α)) : Prop :=
  entries.Pairwise fun a b => a.1 < b.1

theorem mem_of_lookup (h : entries.lookup key = some value) : (key, value) ∈ entries := by
  obtain ⟨before, after, rfl, -⟩ := List.lookup_eq_some_iff.mp h
  exact List.mem_append_right _ List.mem_cons_self

/-! ## Insertions -/

/-- A lookup through one entry, by equality of the keys. -/
theorem lookup_cons_eq_ite (key : String) (value : α) (entries : List (String × α)) (key' : String) :
    ((key, value) :: entries).lookup key' =
      if key' = key then some value else entries.lookup key' := by
  rw [List.lookup_cons]
  by_cases hkey : key' = key
  · simp [hkey]
  · rw [beq_eq_false_iff_ne.mpr hkey, if_neg hkey]

theorem lookup_insertEntry (key : String) (value : α) (entries : List (String × α))
    (key' : String) : (insertEntry key value entries).lookup key' =
      if key' = key then some value else entries.lookup key' := by
  fun_induction insertEntry key value entries with
  | case1 => exact lookup_cons_eq_ite key value [] key'
  | case2 k v rest hlt => exact lookup_cons_eq_ite key value _ key'
  | case3 v rest =>
    simp only [lookup_cons_eq_ite]
    split_ifs <;> rfl
  | case4 k v rest hlt hne ih =>
    simp only [lookup_cons_eq_ite, ih]
    split_ifs with hk hkey hkey
    · exact absurd (hkey.symm.trans hk) hne
    · rfl
    · rfl
    · rfl

theorem lookup_ofList (pairs : List (String × α)) (key : String) :
    (KeyMap.ofList pairs).entries.lookup key = pairs.reverse.lookup key := by
  have hfold : ∀ m : KeyMap α, (pairs.foldl (fun m p => m.insert p.1 p.2) m).entries.lookup key =
      (pairs.reverse.lookup key).or (m.entries.lookup key) := by
    induction pairs with
    | nil => intro m; simp
    | cons p pairs ih =>
      intro m
      obtain ⟨k, v⟩ := p
      have hinsert : (m.insert k v).entries.lookup key =
          ([(k, v)].lookup key).or (m.entries.lookup key) := by
        rw [KeyMap.insert, lookup_insertEntry, lookup_cons_eq_ite]
        split_ifs <;> simp
      rw [List.foldl_cons, ih, hinsert, List.reverse_cons, List.lookup_append, Option.or_assoc]
  rw [KeyMap.ofList, hfold]
  simp [KeyMap.empty]

/-! ## Entries in order -/

theorem InOrder.tail {e : String × α} (h : InOrder (e :: rest)) : InOrder rest :=
  (List.pairwise_cons.mp h).2

theorem InOrder.lookup_tail (h : InOrder ((key, value) :: rest)) : rest.lookup key = none := by
  rw [List.lookup_eq_none_iff]
  intro e he
  have hlt : key < e.1 := (List.pairwise_cons.mp h).1 e he
  simpa using String.ne_of_lt hlt

/-- The first entry of a map has the least of its keys. -/
theorem InOrder.head_le (h : InOrder ((key, value) :: rest)) {other : α}
    (hother : ((key, value) :: rest).lookup key' = some other) : key ≤ key' := by
  rcases List.mem_cons.mp (mem_of_lookup hother) with heq | hmem
  · exact (Prod.mk.inj heq).1 ▸ Std.le_refl key
  · exact Std.le_of_lt ((List.pairwise_cons.mp h).1 _ hmem)

/-- A key before those of a map has no value there. -/
theorem InOrder.lookup_eq_none_of_lt (h : InOrder ((key, value) :: rest)) (hlt : key' < key) :
    ((key, value) :: rest).lookup key' = none := by
  cases hother : ((key, value) :: rest).lookup key' with
  | none => rfl
  | some other => exact absurd hlt (String.not_lt.mpr (h.head_le hother))

/-- An entry is the first one exactly if its key is the least. -/
theorem InOrder.exists_eq_cons_iff (h : InOrder entries) :
    (∃ rest, entries = (key, value) :: rest) ↔ entries.lookup key = some value ∧
      ∀ key' other, entries.lookup key' = some other → key ≤ key' := by
  constructor
  · rintro ⟨rest, rfl⟩
    exact ⟨by simp, fun key' other hother => h.head_le hother⟩
  · rintro ⟨hkey, hleast⟩
    cases entries with
    | nil => exact nomatch hkey
    | cons e rest =>
      obtain ⟨k, v⟩ := e
      have hle : key ≤ k := hleast k v (by simp)
      obtain rfl : key = k := Std.le_antisymm hle (h.head_le hkey)
      obtain rfl : v = value := by simpa using hkey
      exact ⟨rest, rfl⟩

/-- Maps that have the same value for each key are the same. -/
theorem InOrder.eq_of_lookup_eq {entries' : List (String × α)} (h : InOrder entries)
    (h' : InOrder entries') (hlookup : ∀ key, entries.lookup key = entries'.lookup key) :
    entries = entries' := by
  induction entries generalizing entries' with
  | nil =>
    cases entries' with
    | nil => rfl
    | cons e rest =>
      obtain ⟨k, v⟩ := e
      simpa using hlookup k
  | cons e rest ih =>
    obtain ⟨k, v⟩ := e
    obtain ⟨rest', rfl⟩ : ∃ rest', entries' = (k, v) :: rest' := by
      rw [h'.exists_eq_cons_iff]
      simpa only [hlookup] using h.exists_eq_cons_iff.mp ⟨rest, rfl⟩
    refine congrArg _ (ih h.tail h'.tail fun key => ?_)
    by_cases hkey : key = k
    · rw [hkey, h.lookup_tail, h'.lookup_tail]
    · simpa [lookup_cons_eq_ite, hkey] using hlookup key

/-! ## Some of the keys -/

theorem InOrder.filter (h : InOrder entries) (p : String × α → Bool) : InOrder (entries.filter p) :=
  List.Pairwise.filter p h

/-- Of the entries of certain keys each is found, and no other. -/
theorem lookup_filter (p : String → Bool) (entries : List (String × α)) (key : String) :
    (entries.filter fun e => p e.1).lookup key = if p key then entries.lookup key else none := by
  induction entries with
  | nil => simp
  | cons e entries ih =>
    obtain ⟨k, v⟩ := e
    rw [List.filter_cons, lookup_cons_eq_ite]
    by_cases hkey : key = k
    · subst hkey
      cases hk : p key <;> simp [hk, ih]
    · cases hk : p k <;> simp [lookup_cons_eq_ite, hkey, ih]

/-! ## Pairs in any order -/

theorem insertEntry_perm (h : ∀ e ∈ entries, e.1 ≠ key) :
    (insertEntry key value entries).Perm ((key, value) :: entries) := by
  fun_induction insertEntry key value entries with
  | case1 => exact .refl _
  | case2 => exact .refl _
  | case3 v rest => exact absurd rfl (h _ List.mem_cons_self)
  | case4 k v rest hlt hne ih =>
    have hrest := ih fun e he => h e (List.mem_cons_of_mem _ he)
    exact (hrest.cons (k, v)).trans (.swap _ _ _)

/-- Pairs with different keys are the entries of their map, in some order. -/
theorem entries_ofList_perm {pairs : List (String × α)} (h : (pairs.map Prod.fst).Nodup) :
    (KeyMap.ofList pairs).entries.Perm pairs := by
  have hfold : ∀ m : KeyMap α, ((pairs ++ m.entries).map Prod.fst).Nodup →
      (pairs.foldl (fun m p => m.insert p.1 p.2) m).entries.Perm (pairs ++ m.entries) := by
    clear h
    induction pairs with
    | nil => exact fun m _ => .refl _
    | cons p pairs ih =>
      intro m hdistinct
      have hfresh : ∀ e ∈ m.entries, e.1 ≠ p.1 := fun e he heq =>
        (List.nodup_cons.mp hdistinct).1
          (heq ▸ List.mem_map_of_mem (List.mem_append_right _ he))
      have hinsert : (m.insert p.1 p.2).entries.Perm (p :: m.entries) := insertEntry_perm hfresh
      have hpairs : (pairs ++ (m.insert p.1 p.2).entries).Perm (p :: pairs ++ m.entries) :=
        (hinsert.append_left pairs).trans List.perm_middle
      exact (ih _ ((hpairs.map Prod.fst).nodup_iff.mpr hdistinct)).trans hpairs
  have hall := hfold .empty (by simpa [KeyMap.empty] using h)
  simpa [KeyMap.ofList, KeyMap.empty] using hall

/-- The order of pairs with different keys makes no difference to their map. -/
theorem ofList_eq_of_perm {pairs pairs' : List (String × α)} (hperm : pairs.Perm pairs')
    (h : (pairs.map Prod.fst).Nodup) : KeyMap.ofList pairs = KeyMap.ofList pairs' := by
  have hentries := ((entries_ofList_perm h).trans hperm).trans
    (entries_ofList_perm ((hperm.map Prod.fst).nodup_iff.mp h)).symm
  refine KeyMap.ext_entries (hentries.eq_of_pairwise ?_ (KeyMap.sorted _) (KeyMap.sorted _))
  intro a b _ _ hlt hgt
  exact absurd (String.lt_trans hlt hgt) (String.lt_irrefl _)

end Redeclare
