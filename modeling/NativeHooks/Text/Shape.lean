/-
# Shapes

What follows a brace, or a word like `struct`, is recognised by its *shape*: a
row of fixed texts, words and spaces.  Each part takes as much as it can, and
no part could leave anything to the next one, so there is one way to read a
shape at a place or none.
-/

import NativeHooks.Text.Blank
import NativeHooks.Text.Word

namespace NativeHooks
namespace Text

/-- One part of a shape. -/
inductive Part where
  /-- This text. -/
  | text (s : String)
  /-- Spaces, perhaps none. -/
  | spaces
  /-- At least one space. -/
  | gap
  /-- At least one word character. -/
  | word
  deriving DecidableEq, Repr

/-- What follows at least one character of `p`, all of them taken. -/
def afterSome (p : Char → Bool) : List Char → Option (List Char)
  | [] => none
  | c :: cs => if p c then some (cs.dropWhile p) else none

/-- What follows the part at the start of a text. -/
def Part.after : Part → List Char → Option (List Char)
  | .text s, cs => s.toList.isPrefixOf? cs
  | .spaces, cs => some (cs.dropWhile isSpace)
  | .gap, cs => afterSome isSpace cs
  | .word, cs => afterSome isWord cs

/-- What follows a shape at the start of a text; none if the text has not that shape. -/
def afterShape : List Part → List Char → Option (List Char)
  | [], cs => some cs
  | part :: parts, cs => (part.after cs).bind (afterShape parts)

/-- What `read` finds at the first place that it finds something at, only places
where no word character stands before being looked at.  `inWord` says that one
stands before the text. -/
def atFirstWord (read : List Char → Option α) (inWord : Bool) : List Char → Option α
  | [] => none
  | c :: cs =>
    match if inWord then none else read (c :: cs) with
    | some found => some found
    | none => atFirstWord read (isWord c) cs

end Text
end NativeHooks
