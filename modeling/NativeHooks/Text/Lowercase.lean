/-
# Lower case

The full lower-casing of Unicode, which is a function of the character alone
with two exceptions: U+0130 becomes two characters, and a capital sigma takes
its final form at the end of a word.  `lower` is what searches compare;
`asciiLower` changes the letters A to Z alone and is what names of file
extensions and the return type `void` are compared by.
-/

import NativeHooks.Text.Property.Cased
import NativeHooks.Text.Property.SmallLetter

namespace NativeHooks
namespace Text

/-- The small letter of the code point `n`, or `n` itself if it lies in no run. -/
def smallLetter : List CaseRun → Nat → Nat
  | [], n => n
  | r :: rest, n =>
    if n < r.first then n
    else if n ≤ r.last then
      if (n - r.first) % r.step = 0 then (n + r.shift).toNat else n
    else smallLetter rest n

/-- Lower case of one character, without regard to its neighbours. -/
def lowerChar (c : Char) : List Char :=
  if c.toNat < 0x80 then [c.toLower]
  else if c = '\u0130' then ['i', '\u0307']
  else [Char.ofNat (smallLetter caseRuns c.toNat)]

/-- The nearest character of `cs` that casing does not look through is cased. -/
def casedFollows (cs : List Char) : Bool :=
  match cs.dropWhile fun c => caseIgnorableRanges.contains c.toNat with
  | [] => false
  | c :: _ => casedRanges.contains c.toNat

/-- Lower case of a text that comes after `before`, nearest character first.  A
capital sigma is final when a cased character stands before it and none after. -/
def lowerAfter (before : List Char) : List Char → List Char
  | [] => []
  | c :: cs =>
    (if c = '\u03a3' then
      [if casedFollows before && !casedFollows cs then '\u03c2' else '\u03c3']
    else lowerChar c) ++ lowerAfter (c :: before) cs

/-- Lower case of a text. -/
def lower (cs : List Char) : List Char := lowerAfter [] cs

/-- Lower case of the letters A to Z; all other characters stay. -/
def asciiLower (cs : List Char) : List Char := cs.map Char.toLower

end Text
end NativeHooks
