/-
How a double is written and read in a JSON text.

A double is written with the shortest digits that read back, by position from 10 ^ -5 up to
10 ^ 16 and with an exponent outside, always so that it cannot be taken for an integer.
It is read in one rounding step from a significand of at most 64 bits and a power of ten;
that is exact for the short literals that people write and may be one unit off for long ones.
-/
import AmountField.Json.Shortest
import AmountField.Text.Positional

namespace AmountField.Json.Double

/-! ### Writing -/

/-- The sign bit. -/
def isNegative (x : Float) : Bool := x.toBits >>> 63 = 1

/-- The bit in front of the fraction of a normal double, 2 ^ 52. -/
def hiddenBit : Nat := 0x10000000000000

/-- The shortest digits of the magnitude and the power of ten that they count. -/
def digits (x : Float) : List Char × Int :=
  let fraction := (x.toBits &&& 0xFFFFFFFFFFFFF).toNat
  let exponent := ((x.toBits >>> 52) &&& 0x7FF).toNat
  if exponent = 0 ∧ fraction = 0 then (['0'], 0)
  else
    let r :=
      if exponent = 0 then Rounding.ofBinary fraction (-1074) false
      else Rounding.ofBinary (fraction + hiddenBit) ((exponent : Int) - 1075)
        (fraction = 0 && 1 < exponent)
    let (d, p) := shortest r
    (Nat.toDigits 10 d, p)

/-- A finite double as JSON text. -/
def render (x : Float) : List Char :=
  let (ds, p) := digits x
  let order := (ds.length : Int) - 1 + p
  let magnitude :=
    if order < -5 ∨ 16 ≤ order then
      let sign := if order < 0 then '-' else '+'
      Text.pointAfterFirst ds ++ 'e' :: sign :: Nat.toDigits 10 order.natAbs
    else if 0 ≤ p then Text.positional ds (-p) ++ ['.', '0']
    else Text.positional ds (-p)
  if isNegative x then '-' :: magnitude else magnitude

/-! ### Reading -/

/-- The double nearest to 10 ^ n. -/
def tenTo (n : Nat) : Float := Float.ofScientific 1 false n

/-- Divides by 10 ^ 308 as long as the power is beyond the smallest one that has a double. -/
def settle : Nat → Float → Nat → Float × Nat
  | 0, x, n => (x, n)
  | fuel + 1, x, n => if n ≤ 308 ∨ x == 0 then (x, n) else settle fuel (x / tenTo 308) (n - 308)

/-- The double of significand · 10 ^ exponent, unless it overflows. -/
def ofParts (negative : Bool) (significand : UInt64) (exponent : Int) : Option Float :=
  let x := significand.toFloat
  let magnitude : Option Float :=
    if 0 ≤ exponent then
      if x == 0 then some x
      else if 308 < exponent then none
      else
        let y := x * tenTo exponent.toNat
        if y.isInf then none else some y
    else
      let (y, n) := settle 3 x exponent.natAbs
      if 308 < n then some 0 else some (y / tenTo n)
  magnitude.map fun y => if negative then -y else y

end AmountField.Json.Double
