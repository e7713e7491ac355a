/-
Reading a decimal literal.

A literal is a base and, behind the first `e` or `E`, an exponent.  The base may hold one
point; its digits, the point left out, are the digits of the decimal, and the scale is the
number of places behind the point less the exponent.  Underscores separate digits and do
not count.  The parts are read in a fixed order, exponent, emptiness of the base, scale,
digits, so a text with two faults is refused for the first of them.
-/
import AmountField.Decimal.Basic
import AmountField.Text.Split

namespace AmountField.Decimal

/-- Why a text is not a decimal literal. -/
inductive Fault where
  /-- There is no digit where an integer is expected. -/
  | noDigits
  /-- A character of an integer is not a digit. -/
  | invalidDigit
  /-- An exponent is above every 128-bit integer, or a whole number above its width. -/
  | exponentTooLarge
  /-- The exponent is below every 128-bit integer. -/
  | exponentTooSmall
  /-- There is nothing in front of the exponent. -/
  | emptyBase
  /-- The scale of the literal does not fit in 64 bits. -/
  | scaleOverflow (text : String)
  deriving DecidableEq

/-! ### The exponent -/

/-- Whether an exponent begins behind this character. -/
def isExponentMark (c : Char) : Bool := c = 'e' || c = 'E'

/-- Reads digits onto `n` while the number stays within `limit`; `excess` says that it did not. -/
def readBounded (limit : Nat) (excess : Fault) (n : Nat) : List Char → Except Fault Nat
  | [] => .ok n
  | c :: rest =>
    if c.isDigit then
      let m := Nat.ofDigitChars 10 [c] n
      if limit < m then .error excess else readBounded limit excess m rest
    else .error .invalidDigit

/-- The number of negative 128-bit integers, 2 ^ 127. -/
def exponentLimit : Nat := 170141183460469231731687303715884105728

/-- A signed 128-bit exponent. -/
def readExponent (cs : List Char) : Except Fault Int :=
  if cs.isEmpty then .error .noDigits
  else
    let (negative, ds) := Text.splitSign cs
    if ds.isEmpty then .error .invalidDigit
    else if negative then
      (readBounded exponentLimit .exponentTooSmall 0 ds).map fun n => -(n : Int)
    else (readBounded (exponentLimit - 1) .exponentTooLarge 0 ds).map fun n => (n : Int)

/-! ### The base -/

/-- Whether the character may stand in a run of digits. -/
def isDigitOrSeparator (c : Char) : Bool := c.isDigit || c = '_'

/-- The digits of the base with their sign, once the point has been taken out. -/
def readDigits (cs : List Char) : Except Fault Int :=
  let (negative, ds) := Text.splitSign cs
  if ds.isEmpty then .error .noDigits
  else if ds.head? = some '_' then .error .invalidDigit
  else if ds.all isDigitOrSeparator then
    let n : Int := Nat.ofDigitChars 10 (ds.filter Char.isDigit) 0
    .ok (if negative then -n else n)
  else .error .invalidDigit

/-- The characters in front of the point and those behind it. -/
def splitPoint (base : List Char) : List Char × List Char :=
  let (whole, fraction) := Text.splitFirst (· = '.') base
  (whole, fraction.getD [])

/-- Whether the integer is a 64-bit one. -/
def fitsScale (s : Int) : Bool := Int64.minValue.toInt ≤ s && s ≤ Int64.maxValue.toInt

/-- The decimal of a base under an exponent; `text` is the whole literal. -/
def ofBase (text : String) (base : List Char) (exponent : Int) : Except Fault Decimal :=
  if base.isEmpty then .error .emptyBase
  else
    let (whole, fraction) := splitPoint base
    let scale : Int := fraction.countP (· ≠ '_') - exponent
    if fitsScale scale then
      (readDigits (whole ++ fraction)).map fun digits => ⟨digits, Int64.ofInt scale⟩
    else .error (.scaleOverflow text)

/-- The exponent of a literal, zero if it has none. -/
def readTail : Option (List Char) → Except Fault Int
  | none => .ok 0
  | some cs => readExponent cs

/-- Reads a literal into the decimal that it spells, digit for digit. -/
def ofText (text : String) : Except Fault Decimal :=
  let (base, tail) := Text.splitFirst isExponentMark text.toList
  (readTail tail).bind (ofBase text base)

end AmountField.Decimal
