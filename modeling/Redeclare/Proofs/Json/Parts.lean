import Redeclare.Json.Basic

/-!
# Parts of JSON values

The values that stand in a value, at any depth, and induction over them.
-/

namespace Redeclare.Json

/-- A value that stands in another one: the value itself, or a part of one of its items or members. -/
inductive Part : Json → Json → Prop where
  | here {v : Json} : Part v v
  | item {items : List Json} {item part : Json} (hitem : item ∈ items) (h : Part item part) :
      Part (.arr items) part
  | member {members : List (String × Json)} {e : String × Json} {part : Json} (he : e ∈ members)
      (h : Part e.2 part) : Part (.obj members) part

theorem sizeOf_item_lt {items : List Json} {item : Json} (hitem : item ∈ items) :
    sizeOf item < sizeOf (Json.arr items) := by
  have hlt : sizeOf item < sizeOf items := List.sizeOf_lt_of_mem hitem
  rw [arr.sizeOf_spec]
  omega

theorem sizeOf_value_lt {members : List (String × Json)} {e : String × Json} (he : e ∈ members) :
    sizeOf e.2 < sizeOf members := by
  have hmember : sizeOf e < sizeOf members := List.sizeOf_lt_of_mem he
  have hvalue : sizeOf e.2 < sizeOf e := by
    cases e
    simp +arith
  omega

/-- Induction on a value: arrays after their items, objects after the values of their members. -/
theorem induct {motive : Json → Prop} (arr : ∀ items, (∀ item ∈ items, motive item) → motive (.arr items))
    (obj : ∀ members, (∀ e ∈ members, motive e.2) → motive (.obj members))
    (scalar : ∀ v, (∀ items, v ≠ .arr items) → (∀ members, v ≠ .obj members) → motive v)
    (v : Json) : motive v := by
  match v with
  | .arr items => exact arr items fun item _ => induct arr obj scalar item
  | .obj members =>
    exact obj members fun e he =>
      have := sizeOf_value_lt he
      induct arr obj scalar e.2
  | .null | .bool _ | .int _ | .float _ | .str _ => exact scalar _ nofun nofun
termination_by v

end Redeclare.Json
