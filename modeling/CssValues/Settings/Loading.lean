import CssValues.Context
import CssValues.Json.Reading
import CssValues.Note
import CssValues.Settings.Basic

/-!
# Loading settings

Settings are read from a file and laid over the defaults. A file that is missing or is of no use
leaves the defaults.
-/

namespace CssValues

/-- What is found under the path of a settings file. -/
inductive SettingsFile where
  | missing
  | directory
  /-- Bytes that are no text. -/
  | unreadable
  | text (t : Text)

def SettingsFile.ofBytes (bytes : ByteArray) : SettingsFile :=
  match String.fromUTF8? bytes with
  | some s => .text s.toList
  | none => .unreadable

/-- Why the settings of a file were not taken. -/
inductive LoadProblem where
  /-- The file cannot be read as JSON. -/
  | unreadable (path : Text)
  /-- The file holds something else than a mapping. -/
  | notMapping (path : Text)

/-- The message of a problem, as far as it does not depend on the system. -/
def LoadProblem.message : LoadProblem → Text
  | .unreadable path => "Error loading configuration from ".toList ++ path
  | .notMapping path =>
    "Configuration in ".toList ++ path ++ " is not an object, using defaults".toList

/-- What a file under a path lays over the settings, if it holds a mapping, and what is wrong with it
otherwise. A file that is missing is all right. -/
def SettingsFile.override (path : Text) : SettingsFile → Option (Entries Value) × List LoadProblem
  | .missing => (none, [])
  | .directory | .unreadable => (none, [.unreadable path])
  | .text t =>
    match Json.read? t with
    | none => (none, [.unreadable path])
    | some (.mapping entries) => (some entries, [])
    | some _ => (none, [.notMapping path])

/-- The same for an optional path. No path, and an empty one, stand for no file. -/
def SettingsFile.overrideAt (path : Option Text) (file : SettingsFile) :
    Option (Entries Value) × List LoadProblem :=
  match path with
  | none | some [] => (none, [])
  | some path => file.override path

namespace Settings

def reset (s : Settings) : Settings := { s with entries := default.entries }

/-- Load the settings anew: go back to the defaults, and lay over them what the file holds. -/
def reload (s : Settings) (path : Option Text) (file : SettingsFile) :
    Settings × List LoadProblem :=
  let (override, problems) := file.overrideAt path
  (override.elim s.reset s.reset.merge, problems)

end Settings

/-! ## Contexts from settings -/

namespace Context

def ofSettings (s : Settings) : Except Error Context :=
  ofValues (s.get "context.viewport_width".toList (.number 1920))
    (s.get "context.viewport_height".toList (.number 1080))
    (s.get "context.font_size".toList (.number 16))

def settingsNote (c : Context) : Note :=
  ⟨"css.context".toList, "Conversion context created from config: ".toList ++ c.shown⟩

end Context

end CssValues
