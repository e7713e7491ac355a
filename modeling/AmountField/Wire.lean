/-
The wire form of a value.

A type with a wire form says how a value is written as bytes and how one is read off the
front of a cursor.  A reader is given a length hint, for forms that do not tell their own
length; all forms of this library do, so none looks at it.  The strict readers want a value
to be the whole of a byte string, or of the bytes that a hexadecimal text spells.
-/
import AmountField.Cursor

namespace AmountField

/-- A type of values that are written as bytes and read back from them. -/
class Wire (α : Type) where
  /-- The bytes of a value. -/
  toBytes : α → List UInt8
  /-- Reads the value at a cursor. -/
  read : Option Nat → Cursor.Reader α

namespace Wire

/-- The form of a value that is one block of `n` bytes. -/
@[reducible]
def ofBlock {α : Type} (n : UInt64) (value : Block n.toNat → α) (block : α → Block n.toNat) :
    Wire α where
  toBytes a := (block a).bytes
  read _ := value <$> Cursor.readBlock n

variable {α : Type} [Wire α]

/-- The value whose bytes these are, all of them; `surplus` is the error for what is left over. -/
def readWhole (surplus : Nat → Error) (bytes : List UInt8) : Except Error α :=
  match read none (Cursor.start bytes) with
  | .error e _ => .error e
  | .ok a c => if c.atEnd then .ok a else .error (surplus c.remaining)

/-- The bytes of a value as upper-case hexadecimal text. -/
def toHex (a : α) : String := Hex.encode (toBytes a)

/-- The value whose bytes a hexadecimal text spells. -/
def ofHex (text : String) : Except Error α :=
  match Hex.decode (octets text) with
  | .error fault => .error (.malformedHex text fault)
  | .ok bytes => readWhole .trailingBytes bytes

end Wire

end AmountField
