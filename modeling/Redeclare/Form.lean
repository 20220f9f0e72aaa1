import Redeclare.Json.Basic

/-!
# Written forms

How the things of this library are written, before a format is chosen: scalars,
lists, records with their fields in order, and variants with content.  JSON
writes a variant as an object with one member, YAML as a tag.
-/

namespace Redeclare

/-- A written form. -/
inductive Form where
  | bool (value : Bool)
  | int (value : Int)
  | text (value : String)
  | list (items : List Form)
  | record (fields : List (String × Form))
  | variant (name : String) (content : Form)

namespace Form

mutual

/-- The form in JSON. -/
def toJson : Form → Json
  | .bool b => .bool b
  | .int n => .int n
  | .text s => .str s
  | .list items => .arr (toJsons items)
  | .record fields => .obj (toMembers fields)
  | .variant name content => .obj [(name, content.toJson)]

/-- The items of a list in JSON. -/
def toJsons : List Form → List Json
  | [] => []
  | item :: items => item.toJson :: toJsons items

/-- The fields of a record in JSON. -/
def toMembers : List (String × Form) → List (String × Json)
  | [] => []
  | (key, form) :: fields => (key, form.toJson) :: toMembers fields

end

end Form

end Redeclare
