/-
# The published index

Readers see the index that was published last, as a whole.  An index once taken
stays what it is when another one is published.  Publishing takes two steps: the
index is swapped, then the swap is counted.
-/

import NativeHooks.Index.Basic

namespace NativeHooks

/-- The index that readers see, and how often it was replaced. -/
structure Published where
  current : Index := {}
  version : Nat := 0
  deriving DecidableEq, Repr, Inhabited

namespace Published

/-- Readers see another index from now on. -/
def swap (p : Published) (index : Index) : Published := { p with current := index }

/-- Counts a swap. -/
def bump (p : Published) : Published := { p with version := p.version + 1 }

/-- Publishes another index. -/
def replace (p : Published) (index : Index) : Published := (p.swap index).bump

end Published
end NativeHooks
