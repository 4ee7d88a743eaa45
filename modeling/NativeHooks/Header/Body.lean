/-
# Bodies

What a declaration is, its body tells: an accessor returns through a pointer,
the accessor of a bit-field returns a pair of `this` and a path, and a method
makes a native call.  All readers here go forwards, from the character after
the opening brace or from a place further on.
-/

import NativeHooks.Text.Shape

namespace NativeHooks
namespace Header

open Text

/-! ### Quoted text and the end of a body -/

/-- The contents of a string, from the character after its opening quote.  A
string that its line leaves open takes the rest of the line. -/
def quoted (cs : List Char) : List Char :=
  let content := cs.takeWhile fun c => c != '"' && c != '\n'
  match cs.dropWhile fun c => c != '"' && c != '\n' with
  | '\n' :: _ => dropEndWhile (· == '\r') content
  | _ => content

/-- The rest of a body up to the brace that closes it, inside `d` braces of its
own and inside a string or not; none if that brace is missing.  Braces inside
strings count for nothing, and a string ends with its line at the latest. -/
def closing (d : Nat) (inString : Bool) : List Char → Option (List Char)
  | [] => none
  | c :: cs =>
    if inString then (closing d (c != '"' && c != '\n') cs).map (c :: ·)
    else if c = '"' then (closing d true cs).map (c :: ·)
    else if c = '{' then (closing (d + 1) false cs).map (c :: ·)
    else if c = '}' then
      match d with
      | 0 => some [c]
      | d + 1 => (closing d false cs).map (c :: ·)
    else (closing d false cs).map (c :: ·)

/-- The body that starts with a brace, from the character after it.  A body that
is never closed ends with its first line. -/
def body (after : List Char) : List Char :=
  '{' :: (closing 0 false after).getD (after.takeWhile (· != '\n'))

/-! ### What the bodies hold -/

/-- The body of a plain accessor: `return *Read<`. -/
def fieldShape : List Part :=
  [.spaces, .text "return", .gap, .text "*", .spaces, .word, .spaces, .text "<"]

/-- The body of the accessor of a bit-field, up to its path: `return { this, "`. -/
def bitFieldShape : List Part :=
  [.spaces, .text "return", .spaces, .text "\x7b", .spaces, .text "this", .spaces, .text ",",
   .spaces, .text "\""]

/-- The start of a native call. -/
def callShape : List Part := [.text "NativeCall", .spaces, .text "<"]

/-- What follows `NativeCall<` in the body of a method, which may return the result. -/
def afterCall (after : List Char) : Option (List Char) :=
  match afterShape ([.spaces, .text "return", .gap] ++ callShape) after with
  | some rest => some rest
  | none => afterShape (.spaces :: callShape) after

/-- What follows the angle bracket that closes a list of types, inside `d` angle
brackets of the list; none if the statement or a string comes first. -/
def afterTypes (d : Nat) : List Char → Option (List Char)
  | [] => none
  | c :: cs =>
    if c = '<' then afterTypes (d + 1) cs
    else if c = '>' then
      match d with
      | 0 => some cs
      | d + 1 => afterTypes d cs
    else if c = ';' ∨ c = '{' ∨ c = '}' ∨ c = '"' then none
    else afterTypes d cs

/-- What follows the comma after the receiver of a native call, inside `d`
brackets of the receiver; none if the call ends or a string comes first. -/
def afterReceiver (d : Nat) : List Char → Option (List Char)
  | [] => none
  | c :: cs =>
    if c = '(' ∨ c = '<' then afterReceiver (d + 1) cs
    else if (c = ')' ∨ c = '>') ∧ 0 < d then afterReceiver (d - 1) cs
    else if c = ')' ∨ c = ';' ∨ c = '{' ∨ c = '}' ∨ c = '"' then none
    else if c = ',' ∧ d = 0 then some cs
    else afterReceiver d cs

/-- What follows the character `c` at the start of a text, blanks before it aside. -/
def afterMark (c : Char) (cs : List Char) : Option (List Char) :=
  match cs.dropWhile isBlank with
  | [] => none
  | d :: rest => if d = c then some rest else none

/-- The signature a native call names, from the character after `NativeCall<`. -/
def nativeSignature (cs : List Char) : Option (List Char) := do
  let arguments ← (afterTypes 0 cs).bind (afterMark '(')
  let content ← (afterReceiver 0 arguments).bind (afterMark '"')
  return trim (quoted content)

end Header
end NativeHooks
