import Mathlib.Data.List.Forall2
import Redeclare.Form
import Redeclare.Reading.Value

/-!
# Reading buffered lists and maps

How the readers of buffered values go through a list and the entries of a map,
as far as nothing is at fault.

* `readItems_of_forall₂` and `readEntries_of_forall₂` read part by part.
* `ofList_entries` builds a map again from its entries.
-/

namespace Redeclare

/-! ## Lists and maps -/

namespace Value

variable {α : Type} {read : Value → Except Fault α}

/-- Items that are read one by one are read as a list. -/
theorem readItems_of_forall₂ {vs : List Value} {as : List α}
    (h : List.Forall₂ (fun v a => read v = .ok a) vs as) : readItems read vs = .ok as := by
  induction h with
  | nil => rfl
  | cons hhead _ ih =>
    rw [readItems, hhead, ih]
    rfl

theorem readEntries_of_forall₂ {pairs : List (Value × Value)} {entries : List (String × α)}
    (h : List.Forall₂ (fun pair e => pair.1 = .str e.1 ∧ read pair.2 = .ok e.2) pairs entries) :
    readEntries read pairs = .ok entries := by
  induction h with
  | nil => rfl
  | @cons pair e _ _ hhead _ ih =>
    obtain ⟨key, v⟩ := pair
    obtain ⟨hkey, hv⟩ := hhead
    rw [show key = .str e.1 from hkey, readEntries, hv, ih]
    rfl

end Value

namespace KeyMap

variable {α : Type}

/-- A key above all others is inserted at the end. -/
theorem insertEntry_of_forall_lt {key : String} (value : α) {entries : List (String × α)}
    (h : ∀ e ∈ entries, e.1 < key) : insertEntry key value entries = entries ++ [(key, value)] := by
  induction entries with
  | nil => rfl
  | cons e entries ih =>
    have hlt : e.1 < key := h e List.mem_cons_self
    have hnot : ¬ key < e.1 := fun hgt => String.lt_irrefl _ (String.lt_trans hlt hgt)
    have hne : key ≠ e.1 := fun heq => String.lt_irrefl _ (heq ▸ hlt)
    rw [insertEntry, if_neg hnot, if_neg hne, ih fun b hb => h b (List.mem_cons_of_mem _ hb)]
    rfl

theorem entries_foldl_insert {entries : List (String × α)} {m : KeyMap α}
    (h : (m.entries ++ entries).Pairwise fun a b => a.1 < b.1) :
    (entries.foldl (fun m p => m.insert p.1 p.2) m).entries = m.entries ++ entries := by
  induction entries generalizing m with
  | nil => exact (List.append_nil _).symm
  | cons e entries ih =>
    have hlast : ∀ b ∈ m.entries, b.1 < e.1 := fun b hb =>
      (List.pairwise_append.mp h).2.2 b hb e List.mem_cons_self
    have hinsert : (m.insert e.1 e.2).entries = m.entries ++ [e] :=
      insertEntry_of_forall_lt e.2 hlast
    have hassoc : m.entries ++ e :: entries = (m.insert e.1 e.2).entries ++ entries := by
      rw [hinsert, List.append_assoc, List.singleton_append]
    rw [hassoc] at h ⊢
    exact ih h

/-- The entries of a map are in order, so putting them in one by one appends each. -/
theorem ofList_entries (m : KeyMap α) : ofList m.entries = m :=
  ext_entries (entries_foldl_insert m.sorted)

end KeyMap

end Redeclare
