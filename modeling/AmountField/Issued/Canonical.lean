/-
Canonical issued values.

A canonical value is zero, or a sign, a mantissa and an exponent.  The type does not hold
the window: a value outside it can be written down, and is refused when it is packed.  The
text of a value is positional and as short as an exact text can be, since the zeros at the
end of the mantissa are moved into the exponent first.

The decimal of a value is read from a literal, the mantissa with its sign in front of the
exponent, and is its parts as they stand.
-/
import AmountField.Error
import AmountField.Text.Positional

namespace AmountField.Issued

/-- Zero, or the number ± mantissa · 10 ^ exponent. -/
inductive Canonical where
  /-- Zero, however it was spelled. -/
  | zero
  /-- A number with a sign, a mantissa and an exponent. -/
  | normalized (negative : Bool) (mantissa : UInt64) (exponent : Int32)
  deriving DecidableEq

namespace Canonical

/-- Whether the value is the canonical zero. -/
def isZero : Canonical → Bool
  | zero => true
  | normalized .. => false

/-- Whether the value is zero or has no minus sign. -/
def isPositive : Canonical → Bool
  | zero => true
  | normalized negative _ _ => !negative

/-- The exact decimal: the mantissa with its sign, at the negated exponent. -/
def toDecimal : Canonical → Decimal
  | zero => Decimal.zero
  | normalized negative mantissa exponent =>
    let digits : Int := mantissa.toNat
    ⟨if negative then -digits else digits, -exponent.toInt64⟩

/-- The literal of a value that is not zero. -/
def literal (negative : Bool) (mantissa : UInt64) (exponent : Int32) : String :=
  let sign := if negative then "-" else ""
  s!"{sign}{mantissa.toNat}e{exponent.toInt}"

/-- The decimal that the literal of a value is read as. -/
def readDecimal : Canonical → Except Error Decimal
  | zero => .ok Decimal.zero
  | normalized negative mantissa exponent =>
    let text := literal negative mantissa exponent
    (Decimal.ofText text).mapError (.unreadLiteral text)

/-! ### Text -/

/-- Moves the zeros at the end of a number into the exponent; zero is left alone. -/
def stripZeros (m : Nat) (e : Int) : Nat × Int :=
  if m ≠ 0 ∧ m % 10 = 0 then stripZeros (m / 10) (e + 1) else (m, e)
termination_by m
decreasing_by omega

/-- The text of a value. -/
def render : Canonical → String
  | zero => "0"
  | normalized negative mantissa exponent =>
    let (m, e) := stripZeros mantissa.toNat exponent.toInt
    let magnitude := Text.positional (Nat.toDigits 10 m) (-e)
    String.ofList (if negative then '-' :: magnitude else magnitude)

end Canonical

end AmountField.Issued
