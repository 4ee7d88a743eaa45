/-
# Reading a parameter list

The text between the parentheses of a declaration is split at its top-level
commas.  Of each piece the default value is dropped, runs of spaces become one
space, and the last space at the top level parts the type from the name.  A
piece without such a space is a type alone and gets the name `argN`, where `N`
counts the parameters before it.
-/

import NativeHooks.Declaration.Basic
import NativeHooks.Text.Blank
import NativeHooks.Text.Nesting

namespace NativeHooks
namespace Parameter

open Text

/-- A mark that makes a type a reference or a pointer. -/
def isIndirection (c : Char) : Bool := c == '&' || c == '*'

/-- One piece of a parameter list: no default value, spaces in single file. -/
def tidy (piece : List Char) : List Char :=
  trim (collapse (trim (untilTopLevel '=' 0 piece)))

/-- The parameter a tidy piece declares as the one at `index`. -/
def ofPiece (index : Nat) (piece : List Char) : Parameter :=
  match splitLastSpace 0 piece with
  | some (type, name) =>
    if type.isEmpty then ⟨String.ofList piece, "arg" ++ toString index⟩
    else ⟨String.ofList (trim type), String.ofList ((trim name).dropWhile isIndirection)⟩
  | none => ⟨String.ofList piece, "arg" ++ toString index⟩

/-- The parameters that tidy pieces declare, the first being the one at `index`.
An empty piece declares nothing and does not count. -/
def ofPieces (index : Nat) : List (List Char) → List Parameter
  | [] => []
  | piece :: more =>
    if piece.isEmpty then ofPieces index more
    else ofPiece index piece :: ofPieces (index + 1) more

/-- The parameters of a parameter list. -/
def readList (cs : List Char) : List Parameter :=
  ofPieces 0 ((splitTopLevel ',' cs).map tidy)

end Parameter
end NativeHooks
