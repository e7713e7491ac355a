/-
What a decimal text means, whatever the size of its exponent.

A literal whose exponent is too large for any scale is still a number.  When the exact
reading fails, the text is looked at once more: if it has the form of a plain literal with
an exponent of at least nineteen significant digits, it is zero, or beyond every bound, or
nearer to zero than any decimal.  A text of no such form keeps the fault of the first reading.
-/
import AmountField.Decimal.Literal
import AmountField.Error

namespace AmountField.Decimal

/-- What a decimal text stands for. -/
inductive Reading where
  /-- This decimal, exactly. -/
  | exact (d : Decimal)
  /-- A number too large to be scaled. -/
  | unbounded
  /-- A nonzero number too small to be scaled. -/
  | vanishing
  deriving DecidableEq

namespace Reading

/-- Fewer significant digits than this make an exponent that always has a scale. -/
def hugeExponentLength : Nat := 19

/-- Whether the parts of a base hold digits and nothing else, and one of them at least one. -/
def isPlainBase (whole fraction : List Char) : Bool :=
  !(whole.isEmpty && fraction.isEmpty) && whole.all Char.isDigit && fraction.all Char.isDigit

/-- Whether the digits of an exponent are too many for it to be sure of a scale. -/
def isHuge (ds : List Char) : Bool :=
  !ds.isEmpty && ds.all Char.isDigit
    && hugeExponentLength ≤ (ds.dropWhile (· = '0')).length

/-- Reads `[+-] digits [. digits] e [+-] digits` with an exponent too long for a scale. -/
def ofHugeExponent? (cs : List Char) : Option Reading :=
  match Text.splitFirst isExponentMark (Text.splitSign cs).2 with
  | (_, none) => none
  | (base, some exponent) =>
    let (whole, fraction) := splitPoint base
    let (negative, ds) := Text.splitSign exponent
    if isPlainBase whole fraction && isHuge ds then
      if (whole ++ fraction).all (· = '0') then some (exact Decimal.zero)
      else if negative then some vanishing
      else some unbounded
    else none

/-- Reads a decimal text. -/
def ofText (text : String) : Except Error Reading :=
  match Decimal.ofText text with
  | .ok d => .ok (exact d)
  | .error fault =>
    match ofHugeExponent? text.toList with
    | some r => .ok r
    | none => .error (.malformedDecimal text fault)

end Reading

end AmountField.Decimal
