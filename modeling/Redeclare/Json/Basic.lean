import Redeclare.KeyMap
import Redeclare.Text.Binary64

/-!
# JSON values

The values of the JSON data format.  An object keeps its members in the order
of the text, repeated keys included.  A number without fraction and exponent is
an integer; any other number is a double.
-/

namespace Redeclare

/-- A JSON value. -/
inductive Json where
  | null
  | bool (value : Bool)
  | int (value : Int)
  | float (value : Text.Binary64)
  | str (value : String)
  | arr (items : List Json)
  | obj (members : List (String × Json))

namespace Json

mutual

/-- The value with the members of every object in the order of their keys; of several members with
one key the last one is kept. -/
def sorted : Json → Json
  | .arr items => .arr (sortedItems items)
  | .obj members => .obj (sortedMembers [] members)
  | value => value

/-- Every item with its members in order. -/
def sortedItems : List Json → List Json
  | [] => []
  | item :: items => item.sorted :: sortedItems items

/-- Members inserted one by one into members that are in order. -/
def sortedMembers (acc : List (String × Json)) : List (String × Json) → List (String × Json)
  | [] => acc
  | (key, value) :: members => sortedMembers (insertEntry key value.sorted acc) members

end

/-- The member of an object with a key; none in any other value. -/
def get? (value : Json) (key : String) : Option Json :=
  match value with
  | .obj members => (members.find? (·.1 == key)).map (·.2)
  | _ => none

end Json

end Redeclare
