/-
Hexadecimal text.

`encode` writes bytes as upper-case digits, two a byte.  `decode` reads digits of either
case and says what is wrong with a text that is none: its length is tested first, and after
that the earliest offending byte is named with its offset.  A text reaches `decode` as its
UTF-8 bytes, so the length and the offsets count bytes and not characters.

What `encode` writes is read back by `decode`.
-/
import AmountField.Bytes

namespace AmountField.Hex

/-- Why a text is not hexadecimal. -/
inductive Fault where
  | oddLength
  /-- The byte at this offset is not a digit. -/
  | badByte (byte : UInt8) (offset : Nat)
  deriving DecidableEq

/-- The digit for a number below sixteen. -/
def digit (n : Nat) : Char := if n < 10 then Char.ofNat (48 + n) else Char.ofNat (55 + n)

/-- The two digits of a byte, high half first. -/
def digits (b : UInt8) : List Char := [digit (b.toNat / 16), digit (b.toNat % 16)]

/-- Bytes as upper-case digits. -/
def encode (bytes : List UInt8) : String := String.ofList (bytes.flatMap digits)

/-- The number that an ASCII byte stands for as a digit, in either case. -/
def value? (b : UInt8) : Option Nat :=
  if 48 ≤ b ∧ b ≤ 57 then some (b.toNat - 48)
  else if 65 ≤ b ∧ b ≤ 70 then some (b.toNat - 55)
  else if 97 ≤ b ∧ b ≤ 102 then some (b.toNat - 87)
  else none

/-- The digit at an offset, or the fault of the byte that stands there. -/
def digitAt (offset : Nat) (b : UInt8) : Except Fault Nat :=
  match value? b with
  | some n => .ok n
  | none => .error (.badByte b offset)

/-- Reads digits two by two; the first byte stands at `offset`. -/
def decodeFrom (offset : Nat) : List UInt8 → Except Fault (List UInt8)
  | [] => .ok []
  | [_] => .error .oddLength
  | high :: low :: rest => do
    let h ← digitAt offset high
    let l ← digitAt (offset + 1) low
    let bytes ← decodeFrom (offset + 2) rest
    return UInt8.ofNat (16 * h + l) :: bytes

/-- The bytes that a hexadecimal text spells. -/
def decode (text : List UInt8) : Except Fault (List UInt8) :=
  if text.length % 2 = 1 then .error .oddLength else decodeFrom 0 text

/-! ### What is written is read back -/

theorem utf8EncodeChar_digit {n : Nat} (h : n < 16) :
    String.utf8EncodeChar (digit n) = [(digit n).toUInt8] := by
  have all : ∀ n : Fin 16, String.utf8EncodeChar (digit n) = [(digit n).toUInt8] := by decide
  exact all ⟨n, h⟩

theorem digitAt_digit (offset : Nat) {n : Nat} (h : n < 16) :
    digitAt offset (digit n).toUInt8 = .ok n := by
  have all : ∀ n : Fin 16, value? (digit n).toUInt8 = some n.val := by decide
  rw [digitAt, all ⟨n, h⟩]

theorem octets_encode (bytes : List UInt8) :
    octets (encode bytes) =
      bytes.flatMap fun b => [(digit (b.toNat / 16)).toUInt8, (digit (b.toNat % 16)).toUInt8] := by
  have step : ∀ b : UInt8, (digits b).flatMap String.utf8EncodeChar
      = [(digit (b.toNat / 16)).toUInt8, (digit (b.toNat % 16)).toUInt8] := by
    intro b
    have hb := b.toNat_lt
    simp [digits, utf8EncodeChar_digit (show b.toNat / 16 < 16 by omega),
      utf8EncodeChar_digit (show b.toNat % 16 < 16 by omega)]
  rw [encode, octets_ofList, List.flatMap_assoc]
  simp only [step]

@[simp]
theorem length_octets_encode (bytes : List UInt8) :
    (octets (encode bytes)).length = 2 * bytes.length := by
  rw [octets_encode]
  induction bytes with
  | nil => rfl
  | cons b rest ih =>
    simp only [List.flatMap_cons, List.length_append, ih, List.length_cons, List.length_nil]
    omega

theorem decodeFrom_octets_encode (offset : Nat) (bytes : List UInt8) :
    decodeFrom offset (octets (encode bytes)) = .ok bytes := by
  rw [octets_encode]
  induction bytes generalizing offset with
  | nil => rfl
  | cons b rest ih =>
    have hb := b.toNat_lt
    simp only [List.flatMap_cons, List.cons_append, List.nil_append, decodeFrom]
    rw [digitAt_digit _ (by omega), digitAt_digit _ (by omega), ih]
    show Except.ok (UInt8.ofNat (16 * (b.toNat / 16) + b.toNat % 16) :: rest) = _
    rw [show 16 * (b.toNat / 16) + b.toNat % 16 = b.toNat by omega, UInt8.ofNat_toNat]

@[simp]
theorem decode_encode (bytes : List UInt8) : decode (octets (encode bytes)) = .ok bytes := by
  rw [decode, if_neg (by rw [length_octets_encode]; omega), decodeFrom_octets_encode]

end AmountField.Hex
