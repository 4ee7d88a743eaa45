/-
# The settings file

A folder may hold a settings file, which is a TOML document.  A folder without
one has default settings, and so has one whose file cannot be read or is no TOML
document, but then there is a warning.  A settings file that is asked for by
name must be readable.
-/

import NativeHooks.Settings.Merge
import NativeHooks.Toml.Document
import NativeHooks.Tree.Access

namespace NativeHooks

/-- The name of the settings file of a folder. -/
def settingsFileName : String := ".hookgen.toml"

/-- Settings with the warnings about their file. -/
structure LoadedSettings where
  settings : Settings
  warnings : List Settings.Warning := []

/-- A settings file asked for by name cannot be read. -/
structure SettingsError where
  path : Path
  cause : AccessError
  deriving DecidableEq, Repr

/-- The error in words. -/
def SettingsError.message (e : SettingsError) : String :=
  "Cannot read config " ++ e.path.text ++ ": " ++ e.cause.message

namespace Settings

/-- The settings that a document gives, starting from `base`. -/
def ofDocument (base : Settings) (text : String) : LoadedSettings :=
  match Toml.parse? text with
  | some t => { settings := base.merge t, warnings := warnings t }
  | none => { settings := base, warnings := [.malformed] }

/-- The settings of a folder, starting from `base`. -/
def ofFolder (base : Settings) (d : Disk) (folder : Path) : LoadedSettings :=
  let path := folder.join (Path.ofString settingsFileName)
  if d.has path then
    match d.readText path with
    | .ok text => base.ofDocument text
    | .error _ => { settings := base, warnings := [.unreadable] }
  else { settings := base }

/-- The settings of a file asked for by name, starting from `base`. -/
def ofFile (base : Settings) (d : Disk) (path : Path) : Except SettingsError LoadedSettings :=
  match d.readText path with
  | .ok text => .ok (base.ofDocument text)
  | .error cause => .error { path, cause }

/-- A file at this path is a header. -/
def isHeader (s : Settings) (p : Path) : Bool :=
  s.isHeaderExtension ((p.extension?.bind Path.text?).getD "")

end Settings
end NativeHooks
