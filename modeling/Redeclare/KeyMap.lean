/-!
# Maps with text keys

Finite maps whose keys are texts, held as a list of entries in the order of
their keys, which is the order in which they are written.  Texts are ordered by
code points.
-/

namespace Redeclare

/-- Sets the value of a key in a list of entries that is in order. -/
def insertEntry {α : Type} (key : String) (value : α) :
    List (String × α) → List (String × α)
  | [] => [(key, value)]
  | (k, v) :: rest =>
    if key < k then (key, value) :: (k, v) :: rest
    else if key = k then (key, value) :: rest
    else (k, v) :: insertEntry key value rest

/-- A key of the list after an insertion is the new key or one of the old ones. -/
theorem mem_insertEntry {α : Type} {key : String} {value : α} {entries : List (String × α)}
    {e : String × α} (h : e ∈ insertEntry key value entries) : e = (key, value) ∨ e ∈ entries := by
  fun_induction insertEntry key value entries with
  | case1 => simpa using h
  | case2 => simpa using h
  | case3 => grind
  | case4 k v rest _ _ ih =>
    rcases List.mem_cons.1 h with rfl | h
    · exact Or.inr List.mem_cons_self
    · exact (ih h).imp_right (List.mem_cons_of_mem _)

/-- An insertion keeps the entries in order. -/
theorem pairwise_insertEntry {α : Type} (key : String) (value : α) (entries : List (String × α))
    (h : entries.Pairwise fun a b => a.1 < b.1) :
    (insertEntry key value entries).Pairwise fun a b => a.1 < b.1 := by
  fun_induction insertEntry key value entries with
  | case1 => simp
  | case2 k v rest hlt =>
    refine List.pairwise_cons.2 ⟨fun e he => ?_, h⟩
    rcases List.mem_cons.1 he with rfl | he
    · exact hlt
    · exact String.lt_trans hlt ((List.pairwise_cons.1 h).1 e he)
  | case3 v rest => exact List.pairwise_cons.2 (List.pairwise_cons.1 h)
  | case4 k v rest hlt hne ih =>
    have hk : k < key := Std.lt_of_le_of_ne hlt (Ne.symm hne)
    refine List.pairwise_cons.2 ⟨fun e he => ?_, ih (List.pairwise_cons.1 h).2⟩
    rcases mem_insertEntry he with rfl | he
    · exact hk
    · exact (List.pairwise_cons.1 h).1 e he

/-- A finite map with text keys. -/
structure KeyMap (α : Type) where
  entries : List (String × α)
  sorted : entries.Pairwise fun a b => a.1 < b.1

namespace KeyMap

/-- The map without entries. -/
def empty {α : Type} : KeyMap α := ⟨[], .nil⟩

instance {α : Type} : Inhabited (KeyMap α) := ⟨empty⟩

/-- The map with one key set to a value; an earlier value of the key is replaced. -/
def insert {α : Type} (m : KeyMap α) (key : String) (value : α) : KeyMap α :=
  ⟨insertEntry key value m.entries, pairwise_insertEntry key value m.entries m.sorted⟩

/-- The map of a list of pairs; of several values of a key the last one counts. -/
def ofList {α : Type} (pairs : List (String × α)) : KeyMap α :=
  pairs.foldl (fun m p => m.insert p.1 p.2) empty

/-- Whether the map has no entries. -/
def isEmpty {α : Type} (m : KeyMap α) : Bool := m.entries.isEmpty

/-- Two maps with the same entries are one map. -/
theorem ext_entries {α : Type} {m n : KeyMap α} (h : m.entries = n.entries) : m = n := by
  cases m
  cases n
  simp_all

instance {α : Type} [DecidableEq α] : DecidableEq (KeyMap α) := fun m n =>
  if h : m.entries = n.entries then isTrue (ext_entries h)
  else isFalse fun he => h (congrArg entries he)

end KeyMap

end Redeclare
