/-
# Searching

A query is compared without regard to case.  Over an index it is a list of
terms, all of which must occur in the text of a method; over entries, and over
what one header declares, it is a single text.  Searching never changes the
order of what it finds, and a query of spaces finds everything.
-/

import NativeHooks.Index.Basic
import NativeHooks.Text.Blank
import NativeHooks.Text.Find
import NativeHooks.Text.Lowercase

namespace NativeHooks

open Text

/-- A query in the form it is compared in: without spaces at its ends, in lower case. -/
def normalQuery (query : String) : List Char := lower (trim query.toList)

/-- The text of a method that the terms of a query are looked up in: its name,
class, return type and source, in lower case. -/
def Method.searchText (m : Method) : List Char :=
  lower (m.name ++ " " ++ m.className ++ " " ++ m.returnType ++ " " ++ m.sourceLabel).toList

/-- All terms occur in the text of the method. -/
def Method.hasTerms (terms : List (List Char)) (m : Method) : Bool :=
  terms.all fun term => occursIn term m.searchText

/-- The first `cap` of the methods in whose texts all terms of the query occur. -/
def findMethods (query : String) (cap : Nat) (methods : List Method) : List Method :=
  (methods.filter (Method.hasTerms (words (normalQuery query)))).take cap

/-- The query occurs in the lower-case form of the text. -/
def matchesQuery (query : List Char) (text : String) : Bool := occursIn query (lower text.toList)

/-- The entries whose file name, relative location or class contains the query. -/
def findFiles (query : String) (files : List FileEntry) : List FileEntry :=
  let query := normalQuery query
  files.filter fun e =>
    matchesQuery query e.fileName || matchesQuery query e.relativeLocation
      || matchesQuery query e.className

namespace Declarations

/-- The methods of a header whose name or return type contains the query. -/
def findMethods (query : String) (d : Declarations) : List Method :=
  let query := normalQuery query
  d.methods.filter fun m => matchesQuery query m.name || matchesQuery query m.returnType

/-- The accessors of a header whose name or type contains the query. -/
def findAccessors (query : String) (d : Declarations) : List Accessor :=
  let query := normalQuery query
  d.accessors.filter fun a => matchesQuery query a.name || matchesQuery query a.type

end Declarations
end NativeHooks
