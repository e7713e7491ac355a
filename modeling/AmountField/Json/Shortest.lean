/-
The shortest decimal digits of a binary fraction.

A finite double is m · 2 ^ q.  The reals that round to it form an interval around it, whose
ends belong to it when m is even.  Among the grids of multiples of 10 ^ p, the coarsest one
with a point in that interval gives the fewest digits; of its two points next to the value
the nearer is taken, and in a tie the even one.  Everything is exact: the three numbers are
brought over one denominator and compared as natural numbers.
-/
namespace AmountField.Json

/-- A value and the ends of the interval of reals that round to it, over one denominator. -/
structure Rounding where
  low : Nat
  mid : Nat
  high : Nat
  den : Nat
  /-- Whether the ends round to the value as well. -/
  closed : Bool

namespace Rounding

/-- The interval of m · 2 ^ q; a narrow one reaches half as far below as above. -/
def ofBinary (m : Nat) (q : Int) (narrow : Bool) : Rounding :=
  let up := Nat.pow 2 q.toNat
  { low := (4 * m - if narrow then 1 else 2) * up
    mid := 4 * m * up
    high := (4 * m + 2) * up
    den := 4 * Nat.pow 2 (-q).toNat
    closed := m % 2 = 0 }

/-- The same numbers in units of 10 ^ p. -/
def inUnits (r : Rounding) (p : Int) : Rounding :=
  let up := Nat.pow 10 (-p).toNat
  { r with
    low := r.low * up, mid := r.mid * up, high := r.high * up, den := r.den * Nat.pow 10 p.toNat }

/-- Whether an integer lies in the interval. -/
def contains (r : Rounding) (n : Nat) : Bool :=
  let x := n * r.den
  (r.low < x && x < r.high) || (r.closed && (x = r.low || x = r.high))

/-- The integer of the interval that is nearest to the value, the even one of two. -/
def nearest? (r : Rounding) : Option Nat :=
  let below := r.mid / r.den
  let rest := r.mid % r.den
  match r.contains below, r.contains (below + 1) with
  | true, true =>
    if 2 * rest < r.den || (2 * rest = r.den && below % 2 = 0) then some below
    else some (below + 1)
  | true, false => some below
  | false, true => some (below + 1)
  | false, false => none

end Rounding

/-- The largest power of ten below every overflow, where the search for a grid starts. -/
def coarsestGrid : Int := 309

/-- How many grids to try: 10 ^ -390 is finer than seventeen digits of any double. -/
def gridCount : Nat := 700

/-- Digits d and a place p such that d · 10 ^ p rounds to the value, with the fewest digits. -/
def shortest (r : Rounding) : Nat × Int :=
  ((List.range gridCount).findSome? fun (i : Nat) =>
    let p := coarsestGrid - (i : Int)
    ((r.inUnits p).nearest?).map fun d => (d, p)).getD (0, 0)

end AmountField.Json
