/-
The window of canonical values.

A canonical issued value has a mantissa of exactly sixteen digits and an exponent between
bounds.  The format allows the exponents from -96 to 80; a window may narrow these bounds
and may not widen them, and it never changes the precision, because the mantissa would no
longer decode.
-/
import AmountField.Error

namespace AmountField.Issued

/-- The number of digits of a canonical mantissa. -/
def precision : Nat := 16

/-- The smallest canonical mantissa. -/
def minMantissa : UInt64 := 1000000000000000

/-- The largest canonical mantissa. -/
def maxMantissa : UInt64 := 9999999999999999

/-- Bounds on the exponent of a canonical value, within those of the format. -/
structure Window where
  minExponent : Int
  maxExponent : Int
  least_le : -96 ≤ minExponent
  min_le_max : minExponent ≤ maxExponent
  le_greatest : maxExponent ≤ 80
  deriving DecidableEq

namespace Window

/-- The window of the format itself. -/
def full : Window := ⟨-96, 80, by decide, by decide, by decide⟩

/-- The window with the given precision and bounds, if the format has it. -/
def ofBounds (digits minExponent maxExponent : Int) : Except Error Window :=
  if digits ≠ precision then .error (.wrongPrecision digits)
  else if h : minExponent < -96 ∨ 80 < maxExponent then
    .error (.boundsExceeded minExponent maxExponent)
  else if h' : maxExponent < minExponent then .error (.boundsCrossed minExponent maxExponent)
  else .ok ⟨minExponent, maxExponent, by omega, by omega, by omega⟩

/-- Whether a mantissa and an exponent are canonical in this window. -/
def contains (w : Window) (mantissa : UInt64) (exponent : Int32) : Bool :=
  minMantissa ≤ mantissa && mantissa ≤ maxMantissa
    && w.minExponent ≤ exponent.toInt && exponent.toInt ≤ w.maxExponent

end Window

end AmountField.Issued
