/-
Positional layout of a scaled integer.

A number given as decimal digits and a scale, digits · 10 ^ -scale, is written without an
exponent: a scale that is not positive appends zeros, a positive one puts the point in
front of the last `scale` digits, with as many zeros in front as it takes.  No digit is
dropped and none is rounded, so the layout is exact.
-/
namespace AmountField.Text

/-- The digits with the point moved `scale` places to the left of their end. -/
def positional (digits : List Char) (scale : Int) : List Char :=
  if scale ≤ 0 then digits ++ List.replicate (-scale).toNat '0'
  else
    let whole := digits.length - scale.toNat
    if scale.toNat < digits.length then digits.take whole ++ '.' :: digits.drop whole
    else '0' :: '.' :: List.replicate (scale.toNat - digits.length) '0' ++ digits

/-- The digits with a point behind the first one, when there are others. -/
def pointAfterFirst : List Char → List Char
  | d :: e :: rest => d :: '.' :: e :: rest
  | short => short

end AmountField.Text
