import Redeclare.Settings.Environment
import Redeclare.Settings.File
import Redeclare.Settings.OfTree

/-!
# Loading settings

The settings of a run: those of the environment laid over those of a file.
-/

namespace Redeclare

/-- The file that a run is told to take its settings from. -/
inductive SettingsFile where
  /-- No file is named. -/
  | unnamed
  /-- There is nothing under the name of the file. -/
  | missing (path : String)
  /-- There is something under the name, but no file. -/
  | empty
  /-- The text of the file. -/
  | text (content : String)

/-- Why no settings are loaded. -/
inductive LoadFault where
  /-- The file is missing. -/
  | missing (path : String)
  /-- The file does not hold settings. -/
  | file (fault : Yaml.TextFault)
  /-- One of the settings is refused. -/
  | setting (fault : SettingFault)
  /-- Another reason in words. -/
  | other (message : String)

/-- The message of a fault; a text that is no YAML document has none. -/
def LoadFault.message : LoadFault → Option String
  | missing path => some ("Config file not found: " ++ path)
  | file fault => fault.message
  | setting fault => some fault.message
  | other message => some message

/-- The settings of a file. -/
def SettingsFile.entries : SettingsFile → Except LoadFault (List (String × SettingTree))
  | unnamed | empty => .ok []
  | missing path => .error (.missing path)
  | text content => (Yaml.readSettings content).mapError .file

/-- Loads the settings of a file and an environment. -/
def Settings.load (file : SettingsFile) (env : List (String × String)) :
    Except LoadFault Settings := do
  let entries ← file.entries
  let merged := SettingTree.layerEntries entries (Environment.settings env)
  (Settings.ofEntries merged).mapError .setting

end Redeclare
