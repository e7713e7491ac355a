/-
Accounts.

An account is a block of 20 bytes.  It is written as an address, base-58 text with a version
byte and a checksum, and it is read from an address or from 40 hexadecimal digits.  A text of
40 bytes that is not hexadecimal is still tried as an address.
-/
import AmountField.Wire

namespace AmountField

/-- An account as its 20 bytes. -/
structure Account where
  block : Block 20
  deriving DecidableEq

namespace Account

/-- The version byte of an address. -/
def addressVersion : UInt8 := 0

/-- The account of 40 hexadecimal digits. -/
def ofHexAddress? (text : String) : Option Account :=
  match Hex.decode (octets text) with
  | .ok bytes => (Block.ofList? 20 bytes).map Account.mk
  | .error _ => none

/-- The account of base-58 text with a checksum. -/
def ofBase58 (address : String) : Except Error Account :=
  match Base58.Check.decode addressVersion address with
  | .error fault => .error (.malformedAddress fault)
  | .ok payload =>
    match Block.ofList? 20 payload with
    | some block => .ok ⟨block⟩
    | none => .error (.addressLength address payload.length)

/-- The account that an address or its digits spell. -/
def ofAddress (address : String) : Except Error Account :=
  match ofHexAddress? address with
  | some account => .ok account
  | none => ofBase58 address

/-- The address of an account. -/
def toAddress (a : Account) : String := Base58.Check.encode addressVersion a.block.bytes

/-! ### On the wire and as JSON -/

instance : Wire Account := .ofBlock 20 mk block

/-- The account that a JSON value names. -/
def ofJson : Json → Except Error Account
  | .text address => ofAddress address
  | other => .error (.accountNotText other)

/-- The address of an account as a JSON value. -/
def toJson (a : Account) : Json := .text a.toAddress

end Account

end AmountField
