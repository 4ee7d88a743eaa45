/-
# Misspelt keys

A key that is not known may be a known one misspelt.  The distance between two
keys is the least number of bytes to insert, delete or replace; the known key
with the least distance is suggested if that is at most three.
-/

import NativeHooks.Text.Utf8

namespace NativeHooks

open Text

/-- The rest of a row of distances.  The row above, `upper`, holds the distances
of a text `u` from the beginnings of `v`; the new row holds those of `u` with
`x` after it.  `left` is the entry of the new row just written, and the first
entry of `upper` stands above it. -/
def extendRow [DecidableEq α] (x : α) (left : Nat) : List α → List Nat → List Nat
  | y :: ys, diagonal :: up :: upper =>
    let entry := min (min (up + 1) (left + 1)) (diagonal + if x = y then 0 else 1)
    entry :: extendRow x entry ys (up :: upper)
  | _, _ => []

/-- The row of distances after one more element `x`. -/
def nextRow [DecidableEq α] (v : List α) (upper : List Nat) (x : α) : List Nat :=
  let first := upper.headD 0 + 1
  first :: extendRow x first v upper

/-- The least number of insertions, deletions and replacements that turn `u` into `v`. -/
def editDistance [DecidableEq α] (u v : List α) : Nat :=
  (u.foldl (nextRow v) (List.range (v.length + 1))).getLastD 0

/-- The distance between two keys, in bytes. -/
def keyDistance (a b : String) : Nat := editDistance (encode a.toList) (encode b.toList)

/-- The first of the known keys with the least distance from `key`. -/
def nearestKey? (key : String) : List String → Option String
  | [] => none
  | known :: more =>
    match nearestKey? key more with
    | none => some known
    | some other => if keyDistance key other < keyDistance key known then some other else some known

/-- The known key that `key` may stand for. -/
def suggestedKey? (knownKeys : List String) (key : String) : Option String :=
  (nearestKey? key knownKeys).filter fun known => keyDistance key known ≤ 3

end NativeHooks
