/-
# Settings from a file

A settings file is a TOML table.  Each of its keys that is known and has a value
of the right kind replaces a setting, except that folders to leave out are added
to the others; a count is at least one.  Everything else changes nothing, and
unknown keys and invalid numbers are warned of.
-/

import NativeHooks.Settings.Basic
import NativeHooks.Settings.Spelling
import NativeHooks.Toml.Value

namespace NativeHooks

open Text Toml

/-- The keys of a settings file. -/
def knownKeys : List String :=
  ["extensions", "skip_dirs", "debounce_ms", "min_reload_interval_ms", "max_parallelism",
   "remote_urls", "remote_label", "function_filter_cap"]

/-- The keys whose values are numbers, in the order they are checked. -/
def numberKeys : List String :=
  ["debounce_ms", "min_reload_interval_ms", "max_parallelism", "function_filter_cap"]

/-- An extension as it is compared: without the dots before it, in lower case. -/
def normalExtension (extension : String) : String :=
  String.ofList (asciiLower (extension.toList.dropWhile (· == '.')))

namespace Settings

/-- The string elements of the array under a key. -/
def strings? (t : Table) (key : String) : Option (List String) := (t.get? key).bind Value.strings?

/-- The non-negative number under a key. -/
def natural? (t : Table) (key : String) : Option Nat := (t.get? key).bind Value.natural?

/-- The settings changed by a table. -/
def merge (s : Settings) (t : Table) : Settings :=
  { extensions :=
      match strings? t "extensions" with
      | some extensions => nameSet (extensions.map normalExtension)
      | none => s.extensions
    skippedFolders :=
      match strings? t "skip_dirs" with
      | some folders => insertNames folders s.skippedFolders
      | none => s.skippedFolders
    debounceMs := (natural? t "debounce_ms").getD s.debounceMs
    minReloadIntervalMs := (natural? t "min_reload_interval_ms").getD s.minReloadIntervalMs
    maxParallelism := ((natural? t "max_parallelism").map (max 1)).getD s.maxParallelism
    remoteUrls := (strings? t "remote_urls").getD s.remoteUrls
    remoteLabel := ((t.get? "remote_label").bind Value.string?).getD s.remoteLabel
    methodCap := ((natural? t "function_filter_cap").map (max 1)).getD s.methodCap }

/-- Something odd about a settings file that changes no setting. -/
inductive Warning where
  /-- The file cannot be read. -/
  | unreadable
  /-- The file is no TOML document. -/
  | malformed
  /-- A key that is not known, and the known one it may stand for. -/
  | unknownKey (key : String) (suggestion : Option String)
  /-- A number that is negative or no number. -/
  | invalidValue (key : String) (value : Value)

/-- The warning in words. -/
def Warning.message : Warning → String
  | .unreadable => "Failed to read .hookgen.toml"
  | .malformed => "Failed to parse .hookgen.toml"
  | .unknownKey _ (some suggestion) =>
    "Unknown key in .hookgen.toml, did you mean '" ++ suggestion ++ "'?"
  | .unknownKey _ none =>
    "Unknown key in .hookgen.toml (known keys: " ++ ", ".intercalate knownKeys ++ ")"
  | .invalidValue _ _ => "Ignoring invalid value in .hookgen.toml"

/-- The warnings about a table: unknown keys in ascending order, then numbers. -/
def warnings (t : Table) : List Warning :=
  ((t.map (·.1)).filter (! knownKeys.contains ·)).map
      (fun key => .unknownKey key (suggestedKey? knownKeys key))
    ++ numberKeys.filterMap fun key =>
      match t.get? key with
      | some value => if value.natural?.isSome then none else some (.invalidValue key value)
      | none => none

end Settings
end NativeHooks
