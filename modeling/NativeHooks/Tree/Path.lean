/-
# Paths

A path is a row of bytes in which slashes part the names of files and folders.
A name may hold any byte but the slash and zero, so it need not be text; where
it is shown, bytes that are no UTF-8 give way to the replacement character.

The empty name and the name `.` stand for the folder they are looked up in and
the name `..` for the one above it.
-/

import NativeHooks.Text.Find
import NativeHooks.Text.Utf8

namespace NativeHooks

open Text

/-- The name of a file or folder. -/
abbrev FileName := List UInt8

/-- Names with slashes between them. -/
abbrev Path := List UInt8

/-- The byte that parts names. -/
def slash : UInt8 := 0x2F

/-- The byte that parts the extension of a name. -/
def dot : UInt8 := 0x2E

namespace Path

/-- The path that a text stands for. -/
def ofString (s : String) : Path := encode s.toList

/-- The path as it is shown. -/
def text (p : Path) : String := String.ofList (decodeLossy p)

/-- The text of a path that is UTF-8. -/
def text? (p : Path) : Option String := (decode? p).map String.ofList

/-- The path starts at the root. -/
def isAbsolute (p : Path) : Bool := p.head? == some slash

/-- The names between the slashes, empty ones among them. -/
def names (p : Path) : List FileName := p.splitOn slash

/-- The path of names below the root. -/
def ofNames (names : List FileName) : Path :=
  if names.isEmpty then [slash] else names.flatMap (slash :: ·)

/-- A path with a relative one after it; an absolute one stands for itself. -/
def join (p q : Path) : Path :=
  if q.isAbsolute then q
  else if p.isEmpty || p.getLast? == some slash then p ++ q
  else p ++ slash :: q

/-- The name a path ends with, slashes and `.` after it aside; none if that is
`..` or there is no name. -/
def fileName? (p : Path) : Option FileName :=
  let names := p.names.filter fun n => !n.isEmpty && n != [dot]
  names.getLast?.filter (· != [dot, dot])

/-- What stands after the last dot of the name; a name that has no dot, or none
but one in front, has no extension. -/
def extension? (p : Path) : Option FileName := do
  let name ← p.fileName?
  let stem ← beforeLast? dot name
  if stem.isEmpty then none else some (afterLast dot name)

end Path
end NativeHooks
