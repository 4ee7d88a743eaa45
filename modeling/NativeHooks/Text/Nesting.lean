/-
# Nesting depth of brackets

Angle brackets and parentheses nest types: `TMap<int, float>` is one type and
its comma separates nothing.  The depth of a text counts `<` and `(` up and `>`
and `)` down; it is signed and the two kinds are not told apart, so that every
text, however malformed, has one.  A character stands at the *top level* where
the depth of the text before it is zero.
-/

namespace NativeHooks
namespace Text

/-- What one character adds to the nesting depth. -/
def nesting (c : Char) : Int :=
  if c = '<' ∨ c = '(' then 1 else if c = '>' ∨ c = ')' then -1 else 0

/-- The nesting depth at the end of a text. -/
def depth : List Char → Int
  | [] => 0
  | c :: cs => nesting c + depth cs

/-- Splits at every `sep` at the top level, from the depth `d` on: the first
piece and the pieces after it.  A bracket never separates. -/
def splitFrom (sep : Char) (d : Int) : List Char → List Char × List (List Char)
  | [] => ([], [])
  | c :: cs =>
    if c = sep ∧ nesting c = 0 ∧ d = 0 then
      let (piece, more) := splitFrom sep d cs
      ([], piece :: more)
    else
      let (piece, more) := splitFrom sep (d + nesting c) cs
      (c :: piece, more)

/-- The pieces without the last one if it is empty. -/
def dropEmptyLast : List (List Char) → List (List Char)
  | [] => []
  | [piece] => if piece.isEmpty then [] else [piece]
  | piece :: next :: more => piece :: dropEmptyLast (next :: more)

/-- The pieces of a text between the separators at its top level.  What follows
the last separator is a piece only if it is not empty. -/
def splitTopLevel (sep : Char) (cs : List Char) : List (List Char) :=
  let (piece, more) := splitFrom sep 0 cs
  dropEmptyLast (piece :: more)

/-- What stands before and after the last space character at the top level. -/
def splitLastSpace (d : Int) : List Char → Option (List Char × List Char)
  | [] => none
  | c :: cs =>
    match splitLastSpace (d + nesting c) cs with
    | some (left, right) => some (c :: left, right)
    | none => if c = ' ' ∧ d = 0 then some ([], cs) else none

/-- The text up to the first `stop` at the top level. -/
def untilTopLevel (stop : Char) (d : Int) : List Char → List Char
  | [] => []
  | c :: cs =>
    if c = stop ∧ d = 0 then [] else c :: untilTopLevel stop (d + nesting c) cs

end Text
end NativeHooks
