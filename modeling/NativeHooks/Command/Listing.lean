/-
# Listings

How methods, accessors and entries are listed: a line each for readers, or JSON
for programs.
-/

import NativeHooks.Index.Basic
import NativeHooks.Text.Json
import NativeHooks.Text.Lines

namespace NativeHooks

open Text

/-! ### JSON -/

/-- A parameter as JSON. -/
def Parameter.json (p : Parameter) : Json :=
  .object [("type", .string p.type), ("name", .string p.name)]

/-- A method as JSON. -/
def Method.json (m : Method) : Json :=
  .object
    [("class_name", .string m.className), ("return_type", .string m.returnType),
     ("name", .string m.name), ("parameters", .array (m.parameters.map Parameter.json)),
     ("is_static", .bool m.isStatic), ("is_virtual", .bool m.isVirtual),
     ("native_call_signature", .string m.nativeSignature), ("full_text", .string m.fullText),
     ("source_label", .string m.sourceLabel)]

/-- An accessor as JSON; one of a plain field has no path. -/
def Accessor.json (a : Accessor) : Json :=
  .object
    ([("class_name", .string a.className), ("type", .string a.type), ("name", .string a.name),
      ("full_text", .string a.fullText)]
      ++ match a.kind with
        | .plain => [("is_bit_field", .bool false)]
        | .bits path => [("is_bit_field", .bool true), ("identifier_path", .string path)])

/-- An entry as JSON. -/
def FileEntry.json (e : FileEntry) : Json :=
  .object
    [("file_name", .string e.fileName), ("full_location", .string e.fullLocation),
     ("relative_location", .string e.relativeLocation), ("directory", .string e.directory),
     ("class_name", .string e.className), ("function_count", .number e.methodCount),
     ("field_count", .number e.fieldCount)]

/-! ### Lines -/

/-- A method of a header, with its specifiers. -/
def Method.line (m : Method) : String :=
  "  " ++ m.displayName ++ (if m.isStatic then " [static]" else "")
    ++ (if m.isVirtual then " [virtual]" else "")

/-- An accessor of a header; one of bits shows its path. -/
def Accessor.line (a : Accessor) : String :=
  match a.kind with
  | .plain => "  " ++ a.displayName
  | .bits path => "  " ++ a.displayName ++ "  (" ++ path ++ ")"

/-- A method of an index, with class and source. -/
def Method.indexLine (m : Method) : String :=
  m.className ++ "::" ++ m.displayName ++ "  [" ++ m.sourceLabel ++ "]"

/-- An entry of an index, in columns. -/
def FileEntry.line (e : FileEntry) : String :=
  padRight 50 e.relativeLocation ++ " " ++ padRight 32 e.className ++ " "
    ++ padLeft 4 (toString e.methodCount) ++ " fns "
    ++ padLeft 4 (toString e.fieldCount) ++ " fields"

/-- Lines under a heading, with an empty line before it; nothing without lines. -/
def section? (heading : String) (lines : List String) : List String :=
  if lines.isEmpty then [] else "" :: heading :: lines

namespace Declarations

/-- What a header declares, of which only some methods and accessors are listed. -/
def listing (d : Declarations) (methods : List Method) (accessors : List Accessor) : String :=
  let name := if d.className.isEmpty then "(no struct)" else d.className
  unlines
    ((name ++ ": " ++ toString d.methods.length ++ " functions, " ++ toString d.fields.length
        ++ " fields, " ++ toString d.bitFields.length ++ " bit-fields")
      :: section? "Functions:" (methods.map Method.line)
      ++ section? "Fields:" (accessors.map Accessor.line))

/-- The same as JSON, keys in ascending order. -/
def jsonListing (d : Declarations) (methods : List Method) (accessors : List Accessor) : String :=
  let json : Json :=
    .object
      [("class_name", .string d.className), ("functions", .array (methods.map Method.json)),
       ("fields", .array (accessors.map Accessor.json))]
  json.sorted.text ++ "\n"

end Declarations

/-- Entries or methods as an array. -/
def jsonArray (json : α → Json) (xs : List α) : String := (Json.array (xs.map json)).text ++ "\n"

end NativeHooks
