import Redeclare.Json.Basic

/-!
# Values of a document

What a value of a document is on its own, before anything is known about where
it is used.  A JSON value is one of these; a plain scalar of a YAML document
is one by its text.  The keys of a map may be any values and may repeat.
-/

namespace Redeclare

/-- A value with the kind it has on its own. -/
inductive Value where
  | null
  | bool (value : Bool)
  | int (value : Int)
  | float (value : Text.Binary64)
  | str (value : String)
  | seq (items : List Value)
  | map (pairs : List (Value × Value))

mutual

/-- A JSON value as a value of a document. -/
def Json.toValue : Json → Value
  | .null => .null
  | .bool b => .bool b
  | .int n => .int n
  | .float x => .float x
  | .str s => .str s
  | .arr items => .seq (Json.toValues items)
  | .obj members => .map (Json.toPairs members)

/-- The items of an array as values. -/
def Json.toValues : List Json → List Value
  | [] => []
  | item :: items => item.toValue :: Json.toValues items

/-- The members of an object as pairs. -/
def Json.toPairs : List (String × Json) → List (Value × Value)
  | [] => []
  | (key, value) :: members => (.str key, value.toValue) :: Json.toPairs members

end

end Redeclare
