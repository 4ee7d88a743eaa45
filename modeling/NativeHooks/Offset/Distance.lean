/-
# Distances in two rows

A row of a table of distances depends on the row above it and on nothing else.  So two rows are
enough: the lower one is written over what it held, entry by entry, and then the two change
places.  Entries are looked up by their places, and there is no result if a place lies outside
its row.
-/

namespace NativeHooks
namespace Offset

variable {α : Type} [DecidableEq α]

/-- The row with another entry at place `j`, which has to exist. -/
def write (row : List Nat) (j entry : Nat) : Option (List Nat) :=
  if j < row.length then some (row.set j entry) else none

/-- The lower row written from place `j` on, for the elements from `j` on; `x` is the element of
the row. -/
def fillRow (x : α) (upper lower : List Nat) (j : Nat) : List α → Option (List Nat)
  | [] => some lower
  | y :: ys => do
    let up ← upper[j + 1]?
    let left ← lower[j]?
    let diagonal ← upper[j]?
    let entry := min (min (up + 1) (left + 1)) (diagonal + if x = y then 0 else 1)
    fillRow x upper (← write lower (j + 1) entry) (j + 1) ys

/-- The two rows. -/
structure Rows where
  upper : List Nat
  lower : List Nat

/-- The rows after one more element, which has the number `i`. -/
def Rows.next (v : List α) (rows : Rows) : α × Nat → Option Rows
  | (x, i) => do
    let lower ← fillRow x rows.upper (← write rows.lower 0 (i + 1)) 0 v
    return { upper := lower, lower := rows.upper }

/-- The rows before the first element. -/
def Rows.first (v : List α) : Rows :=
  { upper := List.range (v.length + 1), lower := List.replicate (v.length + 1) 0 }

/-- The distance, from two rows of entries. -/
def editDistance (u v : List α) : Option Nat := do
  let rows ← u.zipIdx.foldlM (Rows.next v) (Rows.first v)
  rows.upper[v.length]?

end Offset
end NativeHooks
