/-
Packing a canonical value into its field.

```text
 63   62   61 ........ 54   53 .................. 0
[1] [sign] [exponent + 97] [       mantissa        ]
```

The sign bit is set when the value is not negative, and zero is the field with nothing but
the leading bit.  Packing refuses what lies outside the window of the format, whatever
window the value came from; unpacking refuses what lies outside the given one.
-/
import AmountField.Issued.Normalize
import AmountField.ValueField

namespace AmountField.Issued

/-- What is added to an exponent to make it a byte. -/
def exponentBias : Int32 := 97

/-- The place of the exponent in the field. -/
def exponentShift : UInt64 := 54

/-- The bits of an exponent before it is put in its place. -/
def exponentMask : UInt64 := 0xFF

/-- The bits of the mantissa. -/
def mantissaMask : UInt64 := 0x003FFFFFFFFFFFFF

/-- The field of zero. -/
def zeroField : IssuedField := ⟨ValueField.leadingBit, by decide⟩

/-- The exponent as it stands in the field. -/
def exponentBits (exponent : Int32) : UInt64 :=
  (exponent + exponentBias).toUInt32.toUInt64 <<< exponentShift

/-- The field of a sign, a mantissa and an exponent, each in its place. -/
def pack (negative : Bool) (mantissa : UInt64) (exponent : Int32) : IssuedField where
  word := ValueField.leadingBit
    ||| ((if negative then 0 else ValueField.signBit) ||| exponentBits exponent ||| mantissa)
  leading_set := ValueField.leadingBit_le_or _

/-- The exponent that a word holds. -/
def exponentOfWord (w : UInt64) : Int32 :=
  ((w >>> exponentShift) &&& exponentMask).toUInt32.toInt32 - exponentBias

namespace Canonical

/-- The field of a value in the window of the format. -/
def toField : Canonical → Except Error IssuedField
  | zero => .ok zeroField
  | normalized negative mantissa exponent =>
    if Window.full.contains mantissa exponent then .ok (pack negative mantissa exponent)
    else .error (.uncanonicalValue mantissa exponent)

/-- The field of a value as a word. -/
def toBits (c : Canonical) : Except Error UInt64 := c.toField.map (·.word)

/-- The value of a word, if it is canonical in the window. -/
def ofBits (w : Window) (bits : UInt64) : Except Error Canonical :=
  if bits = zeroField.word then .ok zero
  else if bits &&& ValueField.leadingBit = 0 then .error (.nativeField bits)
  else
    let mantissa := bits &&& mantissaMask
    let exponent := exponentOfWord bits
    if w.contains mantissa exponent then
      .ok (normalized (bits &&& ValueField.signBit = 0) mantissa exponent)
    else .error (.uncanonicalField bits mantissa exponent)

end Canonical

/-- The field of the text of an issued value. -/
def encode (w : Window) (text : String) : Except Error IssuedField := do
  (← Canonical.ofText w text).toField

end AmountField.Issued
