import Redeclare.KeyMap
import Redeclare.Text.Binary64

/-!
# Trees of settings

Settings as they are made in one place or another, before it is known what they
are for.  Later settings are laid over earlier ones key by key, and every
setting remembers where it was made.
-/

namespace Redeclare

/-- Where a setting is made. -/
inductive Origin where
  | file
  | environment
  deriving DecidableEq

/-- A setting without parts. -/
inductive Leaf where
  | null
  | bool (value : Bool)
  /-- An integer that is written without a minus sign. -/
  | natural (value : Nat)
  /-- An integer that is written with a minus sign. -/
  | signed (value : Int)
  | float (value : Text.Binary64)
  /-- A single character that is written as such. -/
  | char (value : Char)
  | text (value : String)

/-- A tree of settings.  The entries of a group are in the order of their keys. -/
inductive SettingTree where
  | leaf (origin : Origin) (leaf : Leaf)
  | list (origin : Origin) (items : List SettingTree)
  | group (origin : Origin) (entries : List (String × SettingTree))

namespace SettingTree

/-- Where a setting is made. -/
def origin : SettingTree → Origin
  | leaf origin _ | list origin _ | group origin _ => origin

mutual

/-- Lays a setting over another one.  Of two groups the entries are laid over each other; anything
else replaces what is below. -/
def layer (below : SettingTree) : SettingTree → SettingTree
  | .group origin entries =>
    match below with
    | .group _ lower => .group origin (layerEntries lower entries)
    | _ => .group origin entries
  | above => above

/-- Lays entries over others: those of one key over each other. -/
def layerEntries (lower : List (String × SettingTree)) :
    List (String × SettingTree) → List (String × SettingTree)
  | [] => lower
  | (key, above) :: entries =>
    let merged := match lower.lookup key with
      | some below => layer below above
      | none => above
    layerEntries (insertEntry key merged lower) entries

end

end SettingTree

end Redeclare
