/-
Amount fields.

An amount is a native field of 8 bytes or an issued field of 48: the value, the currency,
the issuer.  The leading bit of the bytes says which, so a reader needs nothing but the
bytes to know how long the amount is; since the types of the two value fields fix that bit,
no amount can be built whose bytes would be read back in the wrong frame.

Encoding tests the value, then the currency, then the issuer, and the first fault is the
answer.  Decoding tests an issued value against a window; a native amount always decodes.
-/
import AmountField.Account
import AmountField.AmountText
import AmountField.Currency
import AmountField.Issued.Packing
import AmountField.Native

namespace AmountField

open Issued (Canonical Window)

/-- An amount field. -/
inductive Amount where
  /-- A number of drops. -/
  | native (field : NativeField)
  /-- A value in a currency that an account issues. -/
  | issued (field : IssuedField) (currency : Currency) (issuer : Account)
  deriving DecidableEq

namespace Amount

/-! ### Bytes -/

/-- The value field as a word. -/
def word : Amount → UInt64
  | native field => field.word
  | issued field _ _ => field.word

/-- The bytes of an amount. -/
def toBytes : Amount → List UInt8
  | native field => Word.toBytes field.word
  | issued field currency issuer =>
    Word.toBytes field.word ++ Wire.toBytes currency ++ Wire.toBytes issuer

/-- How many bytes the first byte of an amount announces. -/
def frameLength (first : UInt8) : UInt64 := if ValueField.leadsIssued first then 48 else 8

/-- The amount of a whole frame: its first byte, and as many more as that one announces. -/
def ofFrame (first : UInt8) (more : Block ((frameLength first).toNat - 1)) : Amount :=
  if h : ValueField.leadsIssued first then
    have hlength : (frameLength first).toNat - 1 = 47 := by rw [frameLength, if_pos h]; rfl
    let value := more.slice 0 7 (by omega)
    issued ⟨Word.ofBytes (first :: value.bytes), (ValueField.leadingBit_le_ofBytes value).mpr h⟩
      ⟨more.slice 7 20 (by omega)⟩ ⟨more.slice 27 20 (by omega)⟩
  else
    have hlength : (frameLength first).toNat - 1 = 7 := by rw [frameLength, if_neg h]; rfl
    let value := more.slice 0 7 (by omega)
    native ⟨Word.ofBytes (first :: value.bytes),
      UInt64.not_le.mp (mt (ValueField.leadingBit_le_ofBytes value).mp h)⟩

/-- Reads the amount at a cursor: its frame is taken as one block. -/
def read : Cursor.Reader Amount := do
  let first ← Cursor.peek
  let frame ← Cursor.readBlock (frameLength first)
  return ofFrame first frame.tail

instance : Wire Amount where
  toBytes := toBytes
  read _ := read

/-- The amount whose bytes these are, all of them. -/
def ofBytes (bytes : List UInt8) : Except Error Amount :=
  Wire.readWhole .trailingAmountBytes bytes

/-! ### Kind and sign -/

/-- Whether this is a native amount. -/
def isNative : Amount → Bool
  | native _ => true
  | issued .. => false

/-- Whether the sign bit is set. -/
def isPositive (a : Amount) : Bool := ValueField.signOf a.toBytes

/-! ### Encoding and decoding -/

/-- The field of an amount, its value brought into the window. -/
def ofText (w : Window) : AmountText → Except Error Amount
  | .native drops => (Native.encode drops).map native
  | .issued value currency issuer => do
    let field ← Issued.encode w value
    let currency ← Currency.ofCode currency
    let issuer ← Account.ofAddress issuer
    return issued field currency issuer

/-- The field of the amount that a JSON value spells. -/
def ofJson (w : Window) (j : Json) : Except Error Amount := do
  ofText w (← AmountText.ofJson j)

/-- The amount as it is written, when its value is canonical in the window. -/
def toText (w : Window) : Amount → Except Error AmountText
  | native field => .ok (.native (Native.decode field.word))
  | issued field currency issuer => do
    let value ← Canonical.ofBits w field.word
    let code ← currency.toCode
    return .issued value.render code issuer.toAddress

/-- The JSON value of an amount. -/
def toJson (a : Amount) : Except Error Json := (a.toText .full).map AmountText.toJson

/-- The canonical value of an issued amount; a native amount has none. -/
def issuedValue : Amount → Except Error (Option Canonical)
  | native _ => .ok none
  | issued field _ _ => (Canonical.ofBits .full field.word).map some

end Amount

end AmountField
