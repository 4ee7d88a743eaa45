/-
# Building an index

Every source is read and scanned on its own; then the results are put together
and sorted.  A source that cannot be read gets an entry without declarations
and changes nothing for the others.
-/

import NativeHooks.Header.Reading
import NativeHooks.Index.Basic
import NativeHooks.Text.Order

namespace NativeHooks

open Text

/-- One source, read or not. -/
structure ScannedSource where
  entry : FileEntry
  methods : List Method
  /-- The text of the source could be read. -/
  wasRead : Bool
  deriving DecidableEq, Repr

/-- The entry of a source that declares nothing. -/
def Source.entry (s : Source) : FileEntry :=
  { fileName := s.fileName, fullLocation := s.location, relativeLocation := s.relativeLocation,
    directory := s.directory }

/-- What a source declares, where `fetch` gives the text at a location. -/
def Source.scan (fetch : String → Except ε String) (s : Source) : ScannedSource :=
  match fetch s.location with
  | .error _ => { entry := s.entry, methods := [], wasRead := false }
  | .ok text =>
    let found := Declarations.ofHeader text
    { entry := { s.entry with
        className := found.className, methodCount := found.methods.length,
        fieldCount := found.fields.length }
      methods := found.methods.map fun m => { m with sourceLabel := s.label }
      wasRead := true }

/-- What entries are sorted by. -/
def FileEntry.sortKeys (e : FileEntry) : List String := [e.relativeLocation, e.fullLocation]

/-- What methods are sorted by. -/
def Method.sortKeys (m : Method) : List String :=
  [m.className, m.name, m.sourceLabel, m.fullText]

/-- The index of sources that have been scanned. -/
def Index.ofScanned (scanned : List ScannedSource) : Index :=
  { files := sortByKeys FileEntry.sortKeys (scanned.map (·.entry))
    methods := sortByKeys Method.sortKeys (scanned.flatMap (·.methods)) }

/-- The index of a list of sources, with its report. -/
def Outcome.ofSources (origin : String) (sources : List Source)
    (fetch : String → Except ε String) : Outcome :=
  let scanned := sources.map (Source.scan fetch)
  let index := Index.ofScanned scanned
  let unavailable := (scanned.filter (! ·.wasRead)).map (·.entry.fullLocation)
  { index
    report :=
      { origin, attempted := sources.length, scanned := sources.length - unavailable.length,
        unavailable, methodCount := index.methods.length } }

end NativeHooks
