/-
Bringing a decimal into the window.

The digits of the decimal are carried as text, least significant first, with an exponent.
While digits are missing, zeros are put behind them and the exponent falls, as far as the
window allows; while there are too many, the last is dropped and the exponent rises, unless
the window forbids it, which is an overflow.  What is then still too short or too far down
is zero.  Digits are dropped, never rounded, and a decimal of any length is handled exactly.
-/
import AmountField.Decimal.Reading
import AmountField.Issued.Canonical
import AmountField.Issued.Window

namespace AmountField.Issued

/-- Decimal digits, least significant first, and the power of ten that the first one counts. -/
structure Coefficient where
  /-- The digits, least significant first. -/
  digits : List Char
  /-- The power of ten that the least significant digit counts. -/
  exponent : Int64
  deriving DecidableEq

namespace Coefficient

/-- The number that the digits spell. -/
def mantissa (c : Coefficient) : Nat := Nat.ofDigitChars 10 c.digits.reverse 0

/-- Puts up to `missing` zeros behind the digits while the exponent is above `least`. -/
def pad (least : Int) : Nat → Coefficient → Coefficient
  | 0, c => c
  | missing + 1, c =>
    if least < c.exponent.toInt then pad least missing ⟨'0' :: c.digits, c.exponent - 1⟩ else c

/-- Drops digits beyond the precision; `none` if the exponent would pass `greatest`. -/
def cut (greatest : Int) : List Char → Int64 → Option Coefficient
  | [], e => some ⟨[], e⟩
  | d :: rest, e =>
    if (d :: rest).length ≤ precision then some ⟨d :: rest, e⟩
    else if greatest ≤ e.toInt then none
    else cut greatest rest (e + 1)

/-- The coefficient brought to the precision, as far as the window allows. -/
def fit? (w : Window) (c : Coefficient) : Option Coefficient :=
  let padded := c.pad w.minExponent (precision - c.digits.length)
  cut w.maxExponent padded.digits padded.exponent

end Coefficient

namespace Canonical

/-- The canonical value of a decimal, with the digits beyond the precision cut off. -/
def ofDecimal (w : Window) (d : Decimal) : Except Error Canonical :=
  if d.isZero then .ok zero
  else if d.scale = Int64.minValue then .error (.unboundedExponent d)
  else
    match Coefficient.fit? w ⟨d.digitChars.reverse, -d.scale⟩ with
    | none => .error (.valueOverflow d)
    | some c =>
      if c.exponent.toInt < w.minExponent ∨ c.digits.length < precision then .ok zero
      else if w.maxExponent < c.exponent.toInt then .error (.valueOverflow d)
      else .ok (normalized (d.digits < 0) (UInt64.ofNat c.mantissa) c.exponent.toInt32)

/-- The canonical value of a text; what is too small to be scaled is zero. -/
def ofText (w : Window) (text : String) : Except Error Canonical := do
  match ← Decimal.Reading.ofText text with
  | .exact d => ofDecimal w d
  | .unbounded => throw (.literalOverflow text)
  | .vanishing => return zero

end Canonical

end AmountField.Issued
