/-
# Settings

What an indexing run can be told: which files are headers, which folders to
leave out, how to wait for changes and where the remote headers are.
-/

import NativeHooks.Text.Lowercase
import NativeHooks.Text.Order

namespace NativeHooks

open Text

/-- The settings of an indexing run. -/
structure Settings where
  /-- The extensions of headers, in lower case and without a dot; ascending. -/
  extensions : List String
  /-- The names of folders that are left out; ascending. -/
  skippedFolders : List String
  /-- Time between the last change and the reload it causes. -/
  debounceMs : Nat
  /-- Least time between two reloads. -/
  minReloadIntervalMs : Nat
  /-- How many sources may be scanned at a time. -/
  maxParallelism : Nat
  remoteUrls : List String
  /-- The directory that remote headers are listed under. -/
  remoteLabel : String
  /-- How many methods a search lists. -/
  methodCap : Nat
  deriving DecidableEq, Repr, Inhabited

/-- The URLs of the headers that are indexed when no others are named. -/
def defaultRemoteUrls : List String :=
  ["Actor", "Buff", "GameMode", "Inventory", "Other", "PrimalStructure"].map fun name =>
    "https://raw.githubusercontent.com/ArkServerApi/AsaApi/master/AsaApi/Core/Public/API/ARK/"
      ++ name ++ ".h"

namespace Settings

/-- The settings when nothing is said, with room for `parallelism` scans at a time. -/
def default (parallelism : Nat) : Settings :=
  { extensions := ["h", "hpp"]
    skippedFolders := [".git", "build", "node_modules", "target"]
    debounceMs := 500
    minReloadIntervalMs := 500
    maxParallelism := parallelism
    remoteUrls := defaultRemoteUrls
    remoteLabel := "AsaApi/ARK"
    methodCap := 200 }

/-- How many scans there is room for when nothing is said: one for each processor but one, and
at least one; `processors?` is the number of processors where it is known. -/
def defaultParallelism (processors? : Option Nat) : Nat := max ((processors?.map (· - 1)).getD 1) 1

/-- The extension, without its dot and in any case, is one of a header. -/
def isHeaderExtension (s : Settings) (extension : String) : Bool :=
  s.extensions.contains (String.ofList (asciiLower extension.toList))

/-- Folders of this name are left out. -/
def skips (s : Settings) (folder : String) : Bool := s.skippedFolders.contains folder

end Settings
end NativeHooks
