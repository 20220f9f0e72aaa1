import Redeclare.Json.Basic
import Redeclare.Text.Numeral

/-!
# Writing JSON

Two layouts: without any space, or with every item and member on a line of its
own, indented by two spaces per level.  Quotes, backslashes and the control
characters below the space are escaped; every other character stands for
itself.
-/

namespace Redeclare.Json

/-- A character inside a string. -/
def writeChar (c : Char) : List Char :=
  if c = '"' then ['\\', '"']
  else if c = '\\' then ['\\', '\\']
  else if c = '\x08' then ['\\', 'b']
  else if c = '\x0c' then ['\\', 'f']
  else if c = '\n' then ['\\', 'n']
  else if c = '\r' then ['\\', 'r']
  else if c = '\t' then ['\\', 't']
  else if c.toNat < 0x20 then '\\' :: 'u' :: Text.hexFixed Text.hexDigit 4 c.toNat
  else [c]

/-- A string with its quotes. -/
def writeString (s : String) : List Char :=
  '"' :: s.toList.flatMap writeChar ++ ['"']

/-- A scalar; a number that JSON has no numeral for is null. -/
def writeFloat : Text.Binary64 → List Char
  | .finite s m e => ((Text.Binary64.finite s m e).write .compact).toList
  | _ => "null".toList

/-- The layout of arrays and objects. -/
inductive Layout where
  | compact
  | pretty
  deriving DecidableEq

/-- The break before an item at a level. -/
def Layout.lineBreak : Layout → Nat → List Char
  | compact, _ => []
  | pretty, level => '\n' :: List.replicate (2 * level) ' '

/-- What stands between a key and its value. -/
def Layout.colon : Layout → List Char
  | compact => [':']
  | pretty => [':', ' ']

mutual

/-- The text of a value at a level of nesting. -/
def writeAt (layout : Layout) (level : Nat) : Json → List Char
  | .null => "null".toList
  | .bool true => "true".toList
  | .bool false => "false".toList
  | .int value => (toString value).toList
  | .float value => writeFloat value
  | .str value => writeString value
  | .arr [] => ['[', ']']
  | .arr (item :: items) =>
    '[' :: layout.lineBreak (level + 1) ++ writeAt layout (level + 1) item
      ++ writeItems layout (level + 1) items ++ layout.lineBreak level ++ [']']
  | .obj [] => ['{', '}']
  | .obj ((key, value) :: members) =>
    '{' :: layout.lineBreak (level + 1) ++ writeString key ++ layout.colon
      ++ writeAt layout (level + 1) value ++ writeMembers layout (level + 1) members
      ++ layout.lineBreak level ++ ['}']

/-- The items behind the first, each with its comma. -/
def writeItems (layout : Layout) (level : Nat) : List Json → List Char
  | [] => []
  | item :: items =>
    ',' :: layout.lineBreak level ++ writeAt layout level item ++ writeItems layout level items

/-- The members behind the first, each with its comma. -/
def writeMembers (layout : Layout) (level : Nat) : List (String × Json) → List Char
  | [] => []
  | (key, value) :: members =>
    ',' :: layout.lineBreak level ++ writeString key ++ layout.colon ++ writeAt layout level value
      ++ writeMembers layout level members

end

/-- The text of a value. -/
def write (layout : Layout) (value : Json) : String :=
  String.ofList (writeAt layout 0 value)

end Redeclare.Json
