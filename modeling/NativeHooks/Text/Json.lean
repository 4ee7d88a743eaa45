/-
# JSON text

JSON values and the long form they are written in: every element and every entry
has a line of its own, two spaces further in than the brackets around it, while
empty brackets stay closed.  Of a string only quotes, backslashes and control
characters below U+0020 are escaped.
-/

import NativeHooks.Text.Order

namespace NativeHooks
namespace Text

/-- A JSON value without fractions, signs and null. -/
inductive Json where
  | bool (b : Bool)
  | number (n : Nat)
  | string (s : String)
  | array (elements : List Json)
  /-- The entries are written in this order. -/
  | object (entries : List (String × Json))
  deriving Inhabited

namespace Json

/-- A digit of a hexadecimal number. -/
def hexDigit (n : Nat) : Char := if n < 10 then Char.ofNat (48 + n) else Char.ofNat (87 + n)

/-- A character between quotes. -/
def escaped (c : Char) : List Char :=
  if c == '"' then ['\\', '"']
  else if c == '\\' then ['\\', '\\']
  else if c == '\x08' then ['\\', 'b']
  else if c == '\x0c' then ['\\', 'f']
  else if c == '\n' then ['\\', 'n']
  else if c == '\r' then ['\\', 'r']
  else if c == '\t' then ['\\', 't']
  else if c.toNat < 0x20 then
    ['\\', 'u', '0', '0', hexDigit (c.toNat / 16), hexDigit (c.toNat % 16)]
  else [c]

/-- A string between quotes. -/
def quoted (s : String) : String := "\"" ++ String.ofList (s.toList.flatMap escaped) ++ "\""

/-- Texts between brackets, one a line; `margin` starts the line of the brackets. -/
def bracketed (margin opening closing : String) (texts : List String) : String :=
  if texts.isEmpty then opening ++ closing
  else
    opening ++ "\n" ++ ",\n".intercalate (texts.map ((margin ++ "  ") ++ ·))
      ++ "\n" ++ margin ++ closing

mutual

/-- The long form of a value; `margin` starts the line that it begins in. -/
def textAt (margin : String) : Json → String
  | .bool b => if b then "true" else "false"
  | .number n => toString n
  | .string s => quoted s
  | .array elements => bracketed margin "[" "]" (elementTexts (margin ++ "  ") elements)
  | .object entries => bracketed margin "\x7b" "\x7d" (entryTexts (margin ++ "  ") entries)

/-- The long forms of elements. -/
def elementTexts (margin : String) : List Json → List String
  | [] => []
  | j :: more => j.textAt margin :: elementTexts margin more

/-- The long forms of entries. -/
def entryTexts (margin : String) : List (String × Json) → List String
  | [] => []
  | (key, j) :: more => (quoted key ++ ": " ++ j.textAt margin) :: entryTexts margin more

end

/-- The long form of a value. -/
def text (j : Json) : String := j.textAt ""

mutual

/-- The value with the entries of all objects sorted by key. -/
def sorted : Json → Json
  | .array elements => .array (sortedElements elements)
  | .object entries => .object (sortByKeys (fun e => [e.1]) (sortedEntries entries))
  | j => j

/-- The elements, each sorted. -/
def sortedElements : List Json → List Json
  | [] => []
  | j :: more => j.sorted :: sortedElements more

/-- The entries, each sorted, in the same order. -/
def sortedEntries : List (String × Json) → List (String × Json)
  | [] => []
  | (key, j) :: more => (key, j.sorted) :: sortedEntries more

end

end Json
end Text
end NativeHooks
