/-
# Lists by offset

Lists are split, and parameters and declared hooks read, as they are from characters, but
with places kept as offsets and every step checked.
-/

import NativeHooks.Declaration.Parameters
import NativeHooks.Hook.Declared
import NativeHooks.Offset.Access

namespace NativeHooks
namespace Offset

open Text

/-! ### Splitting -/

/-- The variables of a loop that counts brackets and keeps something else. -/
structure Level (α : Type) where
  depth : Int
  kept : α

/-- A step at the depth `d` of a loop, from the step that it takes with what it keeps. -/
def Level.step {α : Type} (d : Int) : ForInStep α → ForInStep (Level α)
  | .done kept => .done ⟨d, kept⟩
  | .yield kept => .yield ⟨d, kept⟩

/-- Counts brackets, and does `move` at any other character at the top level. -/
def levelMove {α : Type} (move : Move α) : Move (Level α) := fun s i c => do
  if c = '<' ∨ c = '(' then return .yield { s with depth := ← fitting (s.depth + 1) }
  else if c = '>' ∨ c = ')' then return .yield { s with depth := ← fitting (s.depth - 1) }
  else if s.depth = 0 then return Level.step s.depth (← move s.kept i c)
  else return .yield s

/-- What the loop keeps that splits a text: the offset at which the next piece starts and
the pieces before it. -/
structure Splitting where
  start : Nat
  pieces : List (List Char)

/-- Cuts off a piece before each separator. -/
def splitMove (sep : Char) (text : List Char) : Move Splitting := fun s i c => do
  if c = sep then return .yield ⟨i + 1, s.pieces ++ [← slice text s.start i]⟩
  else return .yield s

/-- The pieces of a text between the separators at its top level. -/
def splitTopLevel (sep : Char) (text : List Char) : Checked (List (List Char)) := do
  let s ← walk (encode text) (levelMove (splitMove sep text)) ⟨0, 0, []⟩ 0
  if s.kept.start < size text then
    return s.kept.pieces ++ [← slice text s.kept.start (size text)]
  else return s.kept.pieces

/-- Keeps the offset of each space character. -/
def spaceMove : Move (Option Nat) := fun last i c =>
  return if c = ' ' then .yield (some i) else .yield last

/-- The offset of the last space character at the top level. -/
def lastSpace? (text : List Char) : Checked (Option Nat) := do
  let s ← walk (encode text) (levelMove spaceMove) ⟨0, none⟩ 0
  return s.kept

/-- Stops at `stop`. -/
def stopMove (stop : Char) : Move (Option Nat) := fun found i c =>
  return if c = stop then .done (some i) else .yield found

/-- The text up to the first `stop` at the top level. -/
def untilTopLevel (stop : Char) (text : List Char) : Checked (List Char) := do
  let s ← walk (encode text) (levelMove (stopMove stop)) ⟨0, none⟩ 0
  match s.kept with
  | some i => slice text 0 i
  | none => return text

/-! ### Parameters -/

/-- The parameter that a tidy piece declares as the one at `index`. -/
def ofPiece (index : Nat) (piece : List Char) : Checked Parameter := do
  match ← lastSpace? piece with
  | some i =>
    if 0 < i then
      let type ← slice piece 0 i
      let name ← slice piece (i + 1) (size piece)
      return ⟨String.ofList (trim type),
        String.ofList ((trim name).dropWhile Parameter.isIndirection)⟩
    else return ⟨String.ofList piece, "arg" ++ toString index⟩
  | none => return ⟨String.ofList piece, "arg" ++ toString index⟩

/-- The parameters that the pieces of a list declare, the first being the one at `index`. -/
def ofPieces (index : Nat) : List (List Char) → Checked (List Parameter)
  | [] => return []
  | piece :: more => do
    let declared ← untilTopLevel '=' piece
    let tidy := trim (collapse (trim declared))
    if tidy.isEmpty then ofPieces index more
    else return (← ofPiece index tidy) :: (← ofPieces (index + 1) more)

/-- The parameters of a parameter list. -/
def readParameters (list : List Char) : Checked (List Parameter) := do
  if (trim list).isEmpty then return []
  else ofPieces 0 (← splitTopLevel ',' list)

/-! ### Declared hooks -/

/-- The offset of the parenthesis that closes the one at `opening` on its line. -/
def closingParenthesis (bytes : List UInt8) (opening : Nat) : Checked (Option Nat) := do
  let s ← walk bytes (bracketMove '(' ')' (· == '\n')) {} opening
  return s.found

/-- The offset after the first `DECLARE_HOOK(` of a text. -/
def hookOpening? (text : List Char) : Option Nat :=
  (atFirstWord (afterShape DeclaredHook.openingShape) false text).map (startOf text)

/-- The first hook that a text declares. -/
def readHook (text : List Char) : Checked (Option DeclaredHook) := do
  match hookOpening? text with
  | none => return none
  | some after =>
    let opening ← pred after
    match ← closingParenthesis (encode text) opening with
    | none => return none
    | some close =>
      let arguments ← slice text (opening + 1) close
      let pieces ← splitTopLevel ',' arguments
      return DeclaredHook.ofArguments (pieces.map trim)

end Offset
end NativeHooks
