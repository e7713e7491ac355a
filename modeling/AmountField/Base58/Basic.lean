/-
Base-58 text.

Bytes are written as a numeral of base 58 in the ledger's alphabet, whose zero is `r`.
Each zero byte in front is one `r` in front, so byte strings and texts over the alphabet
correspond one to one.
-/
import AmountField.Base58.Radix

namespace AmountField.Base58

/-- The digits in the order of their values. -/
def alphabet : List Char :=
  "rpshnaf39wBUDNEGHJKLM4PQRST7VWXYZ2bcdeCg65jkm8oFqi1tuvAxyz".toList

/-- The base of the texts. -/
def radix : Radix := ⟨58, by decide, by decide⟩

/-- The base of byte strings. -/
def byteRadix : Radix := ⟨256, by decide, by decide⟩

/-- The letter of a digit below 58. -/
def letter (digit : UInt8) : Char := alphabet.getD digit.toNat 'r'

/-- The digit that a letter stands for. -/
def digit? (c : Char) : Option UInt8 := (alphabet.idxOf? c).map UInt8.ofNat

/-- Bytes as base-58 text. -/
def encode (bytes : List UInt8) : String :=
  String.ofList ((Radix.transcode byteRadix radix bytes).map letter)

/-- The bytes of a base-58 text, unless a character is outside the alphabet. -/
def decode? (text : String) : Option (List UInt8) :=
  (text.toList.mapM digit?).map (Radix.transcode radix byteRadix)

end AmountField.Base58
