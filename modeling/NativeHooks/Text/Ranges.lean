/-
# Sets of code points given by ranges

A property of characters that only a table can decide is kept as a list of
ranges, ascending and disjoint, so that a look-up stops at the first range that
begins beyond the code point.
-/

namespace NativeHooks
namespace Text

/-- Ranges of code points, both ends included, ascending and disjoint. -/
abbrev Ranges := List (Nat × Nat)

/-- The code point `n` lies in one of the ranges. -/
def Ranges.contains : Ranges → Nat → Bool
  | [], _ => false
  | (lo, hi) :: rest, n => if n < lo then false else n ≤ hi || Ranges.contains rest n

end Text
end NativeHooks
