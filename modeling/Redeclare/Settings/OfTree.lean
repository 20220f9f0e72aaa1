import Redeclare.Reading.Fault
import Redeclare.Settings.Basic
import Redeclare.Settings.Tree

/-!
# Settings of a tree

What a tree of settings means.  Settings that are not known are passed over,
and those that are left out have their defaults.  A variant is the text of its
name, or a group whose first key is its name.
-/

namespace Redeclare

/-! ## Faults -/

/-- Why a setting is refused. -/
inductive SettingFault.Cause where
  /-- A setting of the wrong kind. -/
  | wrongKind (found : String) (expected : Expected)
  /-- A name that no variant has. -/
  | unknownVariant (name : String) (known : List String)

/-- Why a setting is refused, where it is made, and its keys. -/
structure SettingFault where
  cause : SettingFault.Cause
  origin : Option Origin := none
  keys : List String := []

/-- The text of a fault's cause. -/
def SettingFault.Cause.message : Cause → String
  | wrongKind found expected => "invalid type: found " ++ found ++ ", expected " ++ expected.text
  | unknownVariant name known =>
    "unknown variant: found " ++ backquoted name ++ ", expected " ++ backquoted (knownText known)

/-- The text of a path of keys: settings of a file belong to the default profile, and names of the
environment are in upper case. -/
def Origin.keyText (keys : List String) : Origin → String
  | file => Text.join "." ("default" :: keys)
  | environment => (Text.join "." keys).map Char.toUpper

/-- The message of a fault. -/
def SettingFault.message (f : SettingFault) : String :=
  f.cause.message ++
    match f.origin with
    | some origin =>
      if f.keys.isEmpty then "" else " for key " ++ Text.quoted (origin.keyText f.keys)
    | none => ""

/-- Readings of settings. -/
abbrev Reading (α : Type) := Except SettingFault α

namespace Reading

/-- A reading below a key. -/
def below {α : Type} (key : String) (read : Reading α) : Reading α :=
  read.mapError fun f => { f with keys := key :: f.keys }

/-- A reading of a setting that is made in some place. -/
def made {α : Type} (origin : Origin) (read : Reading α) : Reading α :=
  read.mapError fun f => { f with origin := some (f.origin.getD origin) }

/-- The end of a reading. -/
def refuse {α : Type} (cause : SettingFault.Cause) : Reading α :=
  .error { cause }

end Reading

/-- A leaf in a message. -/
def Leaf.found : Leaf → String
  | null => "unit"
  | bool b => "bool " ++ toString b
  | natural n => if n < 0x10000000000000000 then "unsigned int " ++ backquoted (toString n) else integerText n
  | signed n => if -0x8000000000000000 ≤ n then "signed int " ++ backquoted (toString n) else integerText n
  | float x => "float " ++ backquoted (x.write .bare)
  | char c => "string " ++ Text.quoted (String.singleton c)
  | text s => "string " ++ Text.quoted s

namespace SettingTree

/-- A setting in a message. -/
def found : SettingTree → String
  | leaf _ l => l.found
  | list _ _ => "sequence"
  | group _ _ => "map"

/-- The fault of a setting of the wrong kind. -/
def wrongKind {α : Type} (t : SettingTree) (expected : Expected) : Reading α :=
  Reading.made t.origin (Reading.refuse (.wrongKind t.found expected))

/-- Reads the content of a variant that has none. -/
def readUnit : SettingTree → Reading Unit
  | leaf _ .null => .ok ()
  | t => t.wrongKind .unit

/-- Reads a truth value. -/
def readBool : SettingTree → Reading Bool
  | leaf _ (.bool b) => .ok b
  | t => t.wrongKind .boolean

/-- Reads items in order, numbered from an index on. -/
def readItems {α : Type} (read : SettingTree → Reading α) : Nat → List SettingTree → Reading (List α)
  | _, [] => .ok []
  | i, t :: ts => do
    let a ← Reading.below (toString i) (read t)
    let as ← readItems read (i + 1) ts
    .ok (a :: as)

/-- Reads the items of a list. -/
def readList {α : Type} (read : SettingTree → Reading α) : SettingTree → Reading (List α)
  | list origin items => Reading.made origin (readItems read 0 items)
  | t => t.wrongKind .sequence

/-- Reads one of several variants without content. -/
def readChoice {α : Type} (kind : VariantKind) (known : List α) (text : α → String)
    (t : SettingTree) : Reading α :=
  let find (name : String) : Reading α :=
    match known.find? (text · == name) with
    | some a => .ok a
    | none => Reading.refuse (.unknownVariant name (known.map text))
  match t with
  | leaf origin (.text name) => Reading.made origin (find name)
  | group origin ((key, content) :: _) =>
    Reading.made origin do
      let a ← Reading.below key (find key)
      Reading.below key content.readUnit
      .ok a
  | group _ [] => t.wrongKind .variantGroup
  | t => t.wrongKind (.variant kind)

end SettingTree

/-! ## Plans -/

namespace Plan

mutual

/-- Reads a plan. -/
def ofTree : SettingTree → Reading Plan
  | .leaf origin (.text name) =>
    if name == "noop" then .ok .noop
    else if name == "override" || name == "chain" then
      Reading.made origin (Reading.refuse (.wrongKind "unit variant" .newtypeVariant))
    else Reading.made origin (Reading.refuse (.unknownVariant name variants))
  | .group origin ((key, content) :: _) =>
    Reading.made origin <| Reading.below key <|
      if key == "noop" then content.readUnit.map fun _ => .noop
      else if key == "override" then
        (content.readList (SettingTree.readChoice .modifierName ModifierName.all ModifierName.text)).map
          .override
      else if key == "chain" then
        match content with
        | .list origin items => Reading.made origin ((ofTrees 0 items).map .chain)
        | t => t.wrongKind .sequence
      else Reading.refuse (.unknownVariant key variants)
  | .group origin [] => (SettingTree.group origin []).wrongKind .variantGroup
  | t => t.wrongKind (.variant .plan)

/-- Reads plans in order, numbered from an index on. -/
def ofTrees (i : Nat) : List SettingTree → Reading (List Plan)
  | [] => .ok []
  | t :: ts => do
    let plan ← Reading.below (toString i) (ofTree t)
    let plans ← ofTrees (i + 1) ts
    .ok (plan :: plans)

end

end Plan

/-! ## Settings -/

namespace OutputSettings

/-- Reads a format. -/
def formatOfTree : SettingTree → Reading OutputFormat :=
  SettingTree.readChoice .outputFormat OutputFormat.all OutputFormat.text

/-- Changes output settings by the entries of a group. -/
def change (o : OutputSettings) : List (String × SettingTree) → Reading OutputSettings
  | [] => .ok o
  | (key, t) :: entries => do
    let o : OutputSettings ← Reading.below key <|
      if key == "format" then (formatOfTree t).map fun format => { o with format }
      else if key == "pretty" then t.readBool.map fun pretty => { o with pretty }
      else .ok o
    change o entries

/-- Reads output settings from a group, or from a list of the format and whether to print
pretty. -/
def ofTree : SettingTree → Reading OutputSettings
  | .group origin entries => Reading.made origin (change {} entries)
  | .list origin items =>
    Reading.made origin do
      match items with
      | [] => .ok {}
      | format :: rest =>
        let format ← Reading.below "0" (formatOfTree format)
        match rest with
        | [] => .ok { format }
        | pretty :: _ =>
          let pretty ← Reading.below "1" pretty.readBool
          .ok { format, pretty }
  | t => t.wrongKind (.record .output)

end OutputSettings

namespace Settings

/-- Changes settings by entries. -/
def change (s : Settings) : List (String × SettingTree) → Reading Settings
  | [] => .ok s
  | (key, t) :: entries => do
    let s : Settings ← Reading.below key <|
      if key == "transformer" then (Plan.ofTree t).map fun plan => { s with plan }
      else if key == "output" then (OutputSettings.ofTree t).map fun output => { s with output }
      else .ok s
    change s entries

/-- Reads settings from the entries of a tree. -/
def ofEntries (entries : List (String × SettingTree)) : Reading Settings :=
  change {} entries

end Settings

end Redeclare
