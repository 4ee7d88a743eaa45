/-
# Reading a header

Reading a header never fails.  Each opening is looked at on its own: if its
body has one of the three shapes and a fitting head stands before it, it is a
declaration, and otherwise it is passed over.  All declarations belong to the
class that the first `struct NAME` of the header names.
-/

import NativeHooks.Declaration.Parameters
import NativeHooks.Header.Body
import NativeHooks.Header.Head
import NativeHooks.Header.Opening

namespace NativeHooks
namespace Header

open Text

/-- The name that a `struct` at the start of a text declares. -/
def structName (cs : List Char) : Option (List Char) := do
  let rest ← afterShape [.text "struct", .gap] cs
  let name := rest.takeWhile isWord
  if name.isEmpty then none else some name

/-- The name that the first `struct NAME` of a header declares; empty if there is
none. -/
def className (cs : List Char) : List Char := (atFirstWord structName false cs).getD []

/-- The declaration at an opening, whose head begins after `before`. -/
def declaration (o : Opening) (before : List Char) : String :=
  String.ofList (trim (between o.before before ++ body o.after))

/-- A name that marks an accessor. -/
def isAccessorName (name : List Char) : Bool := accessorSuffix.toList.isSuffixOf name

/-- The plain accessor at an opening. -/
def fieldAt (className : String) (o : Opening) : Option Accessor := do
  let _ ← afterShape fieldShape o.after
  let head ← accessorHead o.before
  guard (isAccessorName head.name)
  return { className, type := String.ofList head.type, name := String.ofList head.name,
           fullText := declaration o head.before, kind := .plain }

/-- The type of a bit-field in its one spelling, `BitFieldValue<A, B>`, where `A`
ends at the first comma at the top level; none for any other type. -/
def bitFieldType (type : List Char) : Option (List Char) := do
  let rest ← "BitFieldValue".toList.isPrefixOf? type
  let inner ← ['<'].isPrefixOf? (rest.dropWhile isSpace)
  guard (inner.getLast? = some '>')
  match splitTopLevel ',' inner.dropLast with
  | first :: second :: more =>
    some ("BitFieldValue<".toList ++ trim first ++ ", ".toList
      ++ trim ([','].intercalate (second :: more)) ++ ">".toList)
  | _ => none

/-- The accessor of a bit-field at an opening. -/
def bitFieldAt (className : String) (o : Opening) : Option Accessor := do
  let path ← afterShape bitFieldShape o.after
  let head ← accessorHead o.before
  let type ← bitFieldType head.type
  return { className, type := String.ofList type, name := String.ofList head.name,
           fullText := declaration o head.before,
           kind := .bits (String.ofList (trim (quoted path))) }

/-- The method at an opening. -/
def methodAt (className : String) (o : Opening) : Option Method := do
  let call ← afterCall o.after
  let (parameters, rest) ← listBefore (dropSpecifier o.before)
  let (name, rest) ← identBefore rest
  guard (!isAccessorName name)
  let (returnType, rest) ← typeBefore rest
  let (keywords, rest) := keywordsBefore {} rest
  let signature ← nativeSignature call
  return { className, returnType := String.ofList returnType, name := String.ofList name,
           parameters := Parameter.readList parameters,
           isStatic := keywords.isStatic, isVirtual := keywords.isVirtual,
           nativeSignature := String.ofList signature,
           fullText := declaration o rest, sourceLabel := "" }

/-- Everything that the characters of a header declare. -/
def read (cs : List Char) : Declarations :=
  let className := String.ofList (className cs)
  let places := openings cs
  { className
    methods := places.filterMap (methodAt className)
    fields := places.filterMap (fieldAt className)
    bitFields := places.filterMap (bitFieldAt className) }

end Header

/-- Everything a header declares. -/
def Declarations.ofHeader (text : String) : Declarations := Header.read text.toList

end NativeHooks
