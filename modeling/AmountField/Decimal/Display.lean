/-
The text of a decimal, as messages show it.

The digits are written by position as long as that stays readable.  A number with more than
five zeros between the point and its first digit is written with one digit in front of the
point and a negative exponent; an integer with more than fifteen zeros behind its digits is
written as those digits and a positive exponent.  A zero is `0` whatever its scale.
-/
import AmountField.Decimal.Basic
import AmountField.Text.Positional

namespace AmountField.Decimal

/-- The characters of the magnitude at a scale. -/
def renderMagnitude (ds : List Char) (scale : Int) : List Char :=
  if 0 < scale ∧ 5 < scale - ds.length then
    Text.pointAfterFirst ds ++ 'E' :: '-' :: Nat.toDigits 10 (scale - ds.length + 1).toNat
  else if 15 < -scale then ds ++ 'e' :: '+' :: Nat.toDigits 10 (-scale).toNat
  else Text.positional ds scale

/-- The text of a decimal. -/
def render (d : Decimal) : String :=
  let scale := if d.isZero then 0 else d.scale.toInt
  let magnitude := renderMagnitude d.digitChars scale
  String.ofList (if d.digits < 0 then '-' :: magnitude else magnitude)

end AmountField.Decimal
