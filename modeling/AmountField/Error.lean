/-
What can go wrong.

An error is a cause: one constructor for each test that can fail, with the values that the
test saw.  Its kind is the class that a caller branches on, and its message is the wording
that a person reads.  Kinds and wordings are given here once; no other module spells out
either.
-/
import AmountField.Base58.Check
import AmountField.Decimal.Display
import AmountField.Decimal.Literal
import AmountField.Json.Print
import AmountField.Text.Hex
import AmountField.Text.Quoted

namespace AmountField

/-- The classes of errors. -/
inductive Error.Kind where
  /-- A text or a field has the wrong form. -/
  | invalidFormat
  /-- A number or a bound lies outside its range. -/
  | outOfRange
  /-- An issued value is too large. -/
  | overflow
  | bufferUnderrun
  /-- A JSON value has the wrong shape. -/
  | invalidInput
  deriving DecidableEq

/-- The causes of errors. -/
inductive Error where
  | malformedDecimal (text : String) (fault : Decimal.Fault)
  | nativePoint (text : String)
  | fractionalDrops (text : String)
  | nativeRange (text : String)
  /-- A whole number of drops is not a 64-bit number. -/
  | unfitDrops (text : String) (fault : Decimal.Fault)
  /-- The leading bit of a value field is clear. -/
  | nativeField (field : UInt64)
  /-- A value field holds a mantissa or an exponent outside its window. -/
  | uncanonicalField (field : UInt64) (mantissa : UInt64) (exponent : Int32)
  /-- A mantissa or an exponent has no value field. -/
  | uncanonicalValue (mantissa : UInt64) (exponent : Int32)
  /-- The literal of a value is not a decimal. -/
  | unreadLiteral (text : String) (fault : Decimal.Fault)
  /-- The scale of a decimal cannot be negated. -/
  | unboundedExponent (value : Decimal)
  | valueOverflow (value : Decimal)
  /-- A literal is too large to be scaled. -/
  | literalOverflow (text : String)
  /-- A window has another precision than the format. -/
  | wrongPrecision (precision : Int)
  /-- A window reaches beyond the format. -/
  | boundsExceeded (min max : Int)
  | boundsCrossed (min max : Int)
  /-- A currency spells the native code where only zeros may stand for it. -/
  | disallowedCurrency
  /-- A currency has the length of hexadecimal text and is none. -/
  | malformedCurrency (code : String) (fault : Hex.Fault)
  /-- A currency has none of the three spellings. -/
  | unsupportedCurrency (code : String)
  | currencyNotText (value : Json)
  | accountNotText (value : Json)
  /-- An address does not pass its checks. -/
  | malformedAddress (fault : Base58.Check.Fault)
  /-- The payload of an address is not an account. -/
  | addressLength (address : String) (length : Nat)
  /-- A field given as hexadecimal text is none. -/
  | malformedHex (text : String) (fault : Hex.Fault)
  /-- Bytes are left behind a field given as hexadecimal text. -/
  | trailingBytes (count : Nat)
  /-- Bytes are left behind an amount given as bytes. -/
  | trailingAmountBytes (count : Nat)
  /-- More bytes are asked for than there are. -/
  | underrun (requested remaining : Nat)
  /-- A member of an issued amount is not a text. -/
  | memberNotText (key : String) (value : Json)
  /-- A member of an issued amount is not there. -/
  | memberMissing (key : String)
  /-- A JSON value is neither of the shapes of an amount. -/
  | notAnAmount (value : Json)

/-- The wording of a fault in a decimal text. -/
def Decimal.Fault.message : Decimal.Fault → String
  | noDigits => "cannot parse integer from empty string"
  | invalidDigit => "invalid digit found in string"
  | exponentTooLarge => "number too large to fit in target type"
  | exponentTooSmall => "number too small to fit in target type"
  | emptyBase => "Failed to parse empty string"
  | scaleOverflow text => s!"Exponent overflow when parsing '{text}'"

/-- The wording of a fault in a hexadecimal text; a byte is shown as the character it numbers. -/
def Hex.Fault.message : Hex.Fault → String
  | oddLength => "Odd number of digits"
  | badByte byte offset =>
    s!"Invalid character {Text.quoteChar (Char.ofUInt8 byte)} at position {offset}"

namespace Error

/-- The class of an error. -/
def kind : Error → Kind
  | malformedDecimal .. | nativePoint _ | fractionalDrops _ | nativeField _ | uncanonicalField ..
  | unreadLiteral .. | disallowedCurrency | malformedCurrency .. | unsupportedCurrency _
  | currencyNotText _ | accountNotText _ | malformedAddress _ | addressLength .. | malformedHex ..
  | trailingBytes _ | trailingAmountBytes _ | memberNotText .. => .invalidFormat
  | nativeRange _ | unfitDrops .. | uncanonicalValue .. | wrongPrecision _ | boundsExceeded ..
  | boundsCrossed .. => .outOfRange
  | unboundedExponent _ | valueOverflow _ | literalOverflow _ => .overflow
  | underrun .. => .bufferUnderrun
  | memberMissing _ | notAnAmount _ => .invalidInput

/-- What a message says behind the name of its class. -/
def detail : Error → String
  | malformedDecimal text fault => s!"'{text}' is not a decimal number: {fault.message}"
  | nativePoint text => s!"{text} is an invalid native amount: decimal point not allowed"
  | fractionalDrops text => s!"{text} is not a whole number of drops"
  | nativeRange text => s!"{text} is an invalid native amount"
  | unfitDrops text fault => s!"{text} does not fit in 64 bits: {fault.message}"
  | nativeField field =>
    s!"value field {Hex.encode (Word.toBytes field)} is not an issued-currency value"
  | uncanonicalField field mantissa exponent =>
    s!"value field {Hex.encode (Word.toBytes field)} is not canonical: "
      ++ s!"mantissa {mantissa.toNat} exponent {exponent.toInt}"
  | uncanonicalValue mantissa exponent =>
    s!"mantissa {mantissa.toNat} exponent {exponent.toInt} is not a canonical issued value"
  | unreadLiteral text fault => s!"{text}: {fault.message}"
  | unboundedExponent value => s!"exponent of {value.render} is unbounded"
  | valueOverflow value => s!"amount overflow in issued currency value {value.render}"
  | literalOverflow text => s!"amount overflow in issued currency value {text}"
  | wrongPrecision precision => s!"precision {precision} is not the canonical 16 digits"
  | boundsExceeded min max => s!"exponent bounds [{min}, {max}] exceed [-96, 80]"
  | boundsCrossed min max => s!"minimum exponent {min} is above maximum exponent {max}"
  | disallowedCurrency => "disallowed currency code: the native code must be all zero bytes"
  | malformedCurrency code fault => s!"invalid hex currency '{code}': {fault.message}"
  | unsupportedCurrency code => s!"unsupported currency representation: '{code}'"
  | currencyNotText value => s!"currency must be a string, got {value.print}"
  | accountNotText value => s!"account must be a string, got {value.print}"
  | malformedAddress fault => s!"invalid account address: {fault.message}"
  | addressLength address length => s!"'{address}' decodes to {length} bytes, expected 20"
  | malformedHex text fault => s!"invalid hex '{text}': {fault.message}"
  | trailingBytes count => s!"{count} trailing bytes after field"
  | trailingAmountBytes count => s!"{count} trailing bytes after amount field"
  | underrun requested remaining => s!"requested {requested} bytes, {remaining} remaining"
  | memberNotText key value =>
    s!"issued amount field '{key}' must be a string, got {value.print}"
  | memberMissing key => s!"issued amount is missing field '{key}'"
  | notAnAmount value => s!"cannot construct an amount from {value.print}"

/-- The name of a class at the front of a message. -/
def Kind.title : Kind → String
  | invalidFormat => "Invalid format"
  | outOfRange => "Out of range"
  | overflow => "Amount overflow"
  | bufferUnderrun => "Buffer underrun"
  | invalidInput => "Invalid input"

/-- The whole message. -/
def message (e : Error) : String := s!"{e.kind.title}: {e.detail}"

end Error

end AmountField
