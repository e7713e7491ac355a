/-
Base-58 text with a version and a checksum.

The bytes behind such a text are a version byte, the payload, and the first four bytes of
the digest of the digest of both.  Reading tests in this order: the alphabet, the length,
the checksum, the version.
-/
import AmountField.Base58.Basic
import AmountField.Digest.Sha256
import AmountField.Text.Hex

namespace AmountField.Base58.Check

/-- Why a text is refused. -/
inductive Fault where
  /-- A character is outside the alphabet. -/
  | notBase58 (text : String)
  /-- There is nothing in front of the checksum. -/
  | tooShort (text : String)
  | checksumMismatch (text : String)
  /-- The version is another one. -/
  | unexpectedVersion (version : UInt8) (text : String)
  deriving DecidableEq

/-- The wording of a fault. -/
def Fault.message : Fault → String
  | notBase58 text => s!"'{text}' is not valid base58"
  | tooShort text => s!"'{text}' is too short for base58check"
  | checksumMismatch text => s!"checksum mismatch in '{text}'"
  | unexpectedVersion version text =>
    let digits := (Hex.encode [version]).toLower
    s!"unexpected version byte 0x{digits} in '{text}'"

/-- How many bytes a checksum has. -/
def checksumLength : Nat := 4

/-- The first bytes of the digest of the digest. -/
def checksum (body : List UInt8) : List UInt8 :=
  (Sha256.digest (Sha256.digest body).bytes).bytes.take checksumLength

/-- The text of a payload under a version. -/
def encode (version : UInt8) (payload : List UInt8) : String :=
  let body := version :: payload
  Base58.encode (body ++ checksum body)

/-- The payload of a text that was written under the version. -/
def decode (version : UInt8) (text : String) : Except Fault (List UInt8) :=
  match Base58.decode? text with
  | none => .error (.notBase58 text)
  | some data =>
    let (body, sum) := data.splitAt (data.length - checksumLength)
    match body with
    | [] => .error (.tooShort text)
    | v :: payload =>
      if checksum body ≠ sum then .error (.checksumMismatch text)
      else if v ≠ version then .error (.unexpectedVersion v text)
      else .ok payload

end AmountField.Base58.Check
