import Redeclare.Reading.Yaml
import Redeclare.Settings.Tree

/-!
# Settings from a file

The settings of a file are the entries of one YAML mapping.  A file without
content has no settings, and of several values of a key the last one counts.
-/

namespace Redeclare.Yaml

/-- The setting of a scalar. -/
def scalarLeaf (tag : Option String) (text : String) (style : Style) : Except Fault Leaf :=
  match scalarValue tag text style with
  | .error fault => .error fault
  | .ok .null => .ok .null
  | .ok (.bool b) => .ok (.bool b)
  | .ok (.int n) => .ok (if text.startsWith "-" then .signed n else .natural n.toNat)
  | .ok (.float x) => .ok (.float x)
  | .ok _ => .ok (.text text)

/-- The setting of a node.  Tags of the document's own are refused. -/
def settingOfNode (d : Document) : Nat → Path → Node Nat → ReadM SettingTree
  | depth, path, node => locate path do
    let node ← d.follow node
    let place : Place := ⟨d, path, depth, node⟩
    let tagged : Fault := .invalidType .tagged .anySetting
    match node with
    | .scalar _ tag text style =>
      if (localTag? tag).isSome then refuse tagged
      else .leaf .file <$> ofExcept (scalarLeaf tag text style)
    | .sequence _ tag nodes =>
      if (localTag? tag).isSome then refuse tagged
      else
        match depth with
        | 0 => refuse .tooDeep
        | depth + 1 =>
          .list .file <$> (place.itemPlaces depth 0 nodes).mapM fun p =>
            settingOfNode d depth p.path p.node
    | .mapping _ tag nodes =>
      if (localTag? tag).isSome then refuse tagged
      else
        match depth with
        | 0 => refuse .tooDeep
        | depth + 1 =>
          let entries ← (place.pairPlaces depth nodes).mapM fun (key, value) => do
            let key ← key.readText .string anyText
            let tree ← settingOfNode d depth value.path value.node
            return (key, tree)
          return .group .file (KeyMap.ofList entries).entries
    | .alias _ => refuse .tooManyAliases

/-- The settings in a place. -/
def settingsOfPlace (p : Place) : ReadM (List (String × SettingTree)) := do
  let entries ← p.readEntries fun q => settingOfNode q.document q.depth q.path q.node
  return (KeyMap.ofList entries).entries

/-- The settings in the text of a file. -/
def readSettings (text : String) : Except TextFault (List (String × SettingTree)) :=
  readDocument (fun d => settingsOfPlace d.rootPlace) text

end Redeclare.Yaml
