/-
# The shortest decimal of a binary number

A finite double is written with the fewest digits that read back to it.  The
reals that round to a double form an interval, whose ends belong to it exactly
when the significand is even.  The shortest decimal is a multiple of the
greatest power of ten that has a multiple in the interval, and of those the
one nearest to the double, the greater one of two.  All comparisons are between
natural numbers.
-/

namespace NativeHooks
namespace Decimal

/-- A positive double: `significand * 2 ^ exponent`. -/
structure Binary where
  significand : Nat
  exponent : Int
  /-- The next smaller double is only half as far away as the next greater one. -/
  atPowerOfTwo : Bool

/-- The absolute value of the finite double with the given bits. -/
def Binary.ofBits (bits : UInt64) : Binary :=
  let fraction := bits.toNat % Nat.pow 2 52
  let scale := bits.toNat / Nat.pow 2 52 % Nat.pow 2 11
  { significand := if scale = 0 then fraction else fraction + Nat.pow 2 52
    exponent := (max scale 1 : Nat) - 1075
    atPowerOfTwo := fraction == 0 && decide (1 < scale) }

/-- The multiple of `10 ^ k` nearest to `x` in the interval that rounds to `x`,
divided by `10 ^ k`; none if no multiple lies there.  Between two that are
equally near it is the greater one. -/
def Binary.onGrid? (x : Binary) (k : Int) : Option Nat :=
  -- a quarter of the last binary place is `unit`, and `10 ^ k` is `step`
  let e := x.exponent - 2
  let unit := Nat.pow 2 e.toNat * Nat.pow 10 (-k).toNat
  let step := Nat.pow 10 k.toNat * Nat.pow 2 (-e).toNat
  let value := 4 * x.significand * unit
  let low := value - (if x.atPowerOfTwo then 1 else 2) * unit
  let high := value + 2 * unit
  let inside (d : Nat) : Bool :=
    if x.significand % 2 = 0 then decide (low ≤ d * step) && decide (d * step ≤ high)
    else decide (low < d * step) && decide (d * step < high)
  let below := value / step
  match inside below, inside (below + 1) with
  | true, true =>
    some (if value - below * step < (below + 1) * step - value then below else below + 1)
  | true, false => some below
  | false, true => some (below + 1)
  | false, false => none

/-- The first of the grids `10 ^ k`, `10 ^ (k - 1)`, … with a multiple that
rounds to `x`, and the multiple; at most `count` grids are tried. -/
def Binary.firstGrid (x : Binary) (k : Int) : Nat → Nat × Int
  | 0 => (0, 0)
  | count + 1 =>
    match x.onGrid? k with
    | some d => (d, k)
    | none => x.firstGrid (k - 1) count

/-- The shortest decimal `d * 10 ^ k` that reads back to `x`.  Doubles lie below
`10 ^ 309` and are multiples of `2 ^ (-1074)`, so the grids suffice. -/
def Binary.shortest (x : Binary) : Nat × Int := x.firstGrid 309 700

/-- The decimal `d * 10 ^ k` without an exponent.  An integer has no point. -/
def positional (d : Nat) (k : Int) : List Char :=
  let digits := (toString d).toList
  if 0 ≤ k then digits ++ List.replicate k.toNat '0'
  else
    let places := (-k).toNat
    let padded := List.replicate (places + 1 - digits.length) '0' ++ digits
    padded.take (padded.length - places) ++ '.' :: padded.drop (padded.length - places)

end Decimal
end NativeHooks
