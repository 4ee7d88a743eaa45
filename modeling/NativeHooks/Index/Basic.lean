/-
# The index

An index covers many headers at once: an entry for every header and the methods
of all of them.  It is built from *sources*, each of which names a text and
says where in the listing it belongs.  The report tells how many of the sources
could be read.
-/

import NativeHooks.Declaration.Basic

namespace NativeHooks

/-- A text to be indexed. -/
structure Source where
  /-- Where the text is read from: a path or a URL. -/
  location : String
  fileName : String
  /-- The place in the indexed folder, with `/` between the parts. -/
  relativeLocation : String
  directory : String
  deriving DecidableEq, Repr, Inhabited

/-- The label that the methods of a source carry. -/
def Source.label (s : Source) : String := s.relativeLocation

/-- Summary of one source. -/
structure FileEntry where
  fileName : String
  /-- The location of the source. -/
  fullLocation : String
  relativeLocation : String
  directory : String
  /-- Empty if the header declares no class or could not be read. -/
  className : String := ""
  methodCount : Nat := 0
  /-- Number of plain accessors. -/
  fieldCount : Nat := 0
  deriving DecidableEq, Repr, Inhabited

/-- The entries of all sources and the methods of all that could be read. -/
structure Index where
  /-- Sorted by relative location, then by location. -/
  files : List FileEntry := []
  /-- Sorted by class, name, source and text. -/
  methods : List Method := []
  deriving DecidableEq, Repr, Inhabited

namespace Index

/-- An index without entries. -/
def isEmpty (index : Index) : Bool := index.files.isEmpty

/-- The methods that come from the source with the given label. -/
def methodsFrom (index : Index) (label : String) : List Method :=
  index.methods.filter fun m => m.sourceLabel == label

end Index

/-- What came of building an index. -/
structure Report where
  /-- The folder or the label of the remote headers. -/
  origin : String
  /-- Number of sources. -/
  attempted : Nat
  /-- Number of sources that could be read. -/
  scanned : Nat
  /-- Locations of the other sources, in the order of the sources. -/
  unavailable : List String
  methodCount : Nat
  deriving DecidableEq, Repr, Inhabited

/-- The report in one line. -/
def Report.status (r : Report) : String :=
  "Indexed " ++ toString r.scanned ++ "/" ++ toString r.attempted ++ " files, "
    ++ toString r.methodCount ++ " functions"
    ++ (if r.unavailable.isEmpty then ""
        else " (" ++ toString r.unavailable.length ++ " unavailable)")

/-- An index with its report. -/
structure Outcome where
  index : Index
  report : Report
  deriving DecidableEq, Repr, Inhabited

end NativeHooks
