/-
# Indexing a folder

The sources of a folder are the headers in it and in the folders below it, apart
from those that the settings leave out.  Links below the folder are not
followed; the folder itself may be one.  A source is listed by its path below
the folder, with every `\` turned into `/`.
-/

import NativeHooks.Index.Build
import NativeHooks.Settings.File

namespace NativeHooks

open Text

/-- The most bytes of a file that is scanned. -/
def maxSourceBytes : Nat := 16777216

/-- The text of the file at a location. -/
def Disk.fetch (d : Disk) (location : String) : Except AccessError String := do
  let content ← d.read (Path.ofString location)
  if maxSourceBytes < content.size then .error (.tooLarge content.size maxSourceBytes)
  else .ok content.text

/-- The source at the end of a row of names below a folder. -/
def Source.inFolder (folder : Path) (names : List FileName) : Source :=
  let below : Path := [slash].intercalate names
  let relative := (decodeLossy below).map fun c => if c == '\\' then '/' else c
  { location := (folder.join below).text
    fileName := String.ofList (afterLast '/' relative)
    relativeLocation := String.ofList relative
    directory := String.ofList ((beforeLast? '/' relative).getD []) }

/-- The headers in a folder, each as the names on the way to it. -/
def Tree.headers (s : Settings) (t : Tree) : List (List FileName) :=
  (t.files fun name => !s.skips (Path.text name)).filter fun names =>
    s.isHeader ([slash].intercalate names)

/-- The sources of the headers found in a folder, sorted by relative location. -/
def Source.listing (folder : Path) (found : List (List FileName)) : List Source :=
  sortByKeys (fun s => [s.relativeLocation]) (found.map (Source.inFolder folder))

/-- Why a folder cannot be indexed. -/
inductive FolderError where
  /-- Nothing is there. -/
  | notFound (path : Path)
  /-- Something else is there. -/
  | notFolder (path : Path)
  deriving DecidableEq, Repr

/-- The error in words. -/
def FolderError.message : FolderError → String
  | notFound path => "Folder not found: " ++ path.text
  | notFolder path => "Not a folder: " ++ path.text

/-- The sources of a folder. -/
def Disk.sources (d : Disk) (s : Settings) (folder : Path) : Except FolderError (List Source) :=
  match d.find folder with
  | .ok (_, t) =>
    if t.isFolder then .ok (Source.listing folder (t.headers s))
    else .error (.notFolder folder)
  | .error _ => .error (.notFound folder)

/-- The index of a folder, with its report. -/
def Disk.index (d : Disk) (s : Settings) (folder : Path) : Except FolderError Outcome := do
  let sources ← d.sources s folder
  return Outcome.ofSources folder.text sources d.fetch

end NativeHooks
