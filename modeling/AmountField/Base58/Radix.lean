/-
Rewriting a numeral from one base in another.

A byte string is a numeral of base 256 and an address is one of base 58; both directions of
the conversion are the same computation.  The digits of the old numeral are taken from the
most significant one on, and each is absorbed into the new numeral: multiply by the old
base, add the digit.  The new numeral is held with its least significant digit first, so
that a carry runs along the list, and it never grows a leading zero.  Zeros in front of the
old numeral do not count for its value; `transcode` sets as many in front of the new one.
-/
namespace AmountField

/-- A base of numerals whose digits fit in a byte. -/
structure Radix where
  size : UInt32
  two_le : 2 ≤ size
  le_byte : size ≤ 256

namespace Radix

theorem div_size_lt (b : Radix) {carry : UInt32} (h : carry ≠ 0) :
    (carry / b.size).toNat < carry.toNat := by
  have two : 2 ≤ b.size.toNat := UInt32.le_iff_toNat_le.1 b.two_le
  have pos : carry.toNat ≠ 0 := fun h0 => h (UInt32.toNat_inj.1 h0)
  rw [UInt32.toNat_div]
  exact Nat.div_lt_self (by omega) (by omega)

/-- The digits of a carry that has run off the end of a numeral, least significant first. -/
def spill (b : Radix) (carry : UInt32) : List UInt8 :=
  if carry = 0 then []
  else (carry % b.size).toUInt8 :: b.spill (carry / b.size)
termination_by carry.toNat
decreasing_by exact b.div_size_lt ‹_›

/-- The numeral times `factor` plus `carry`, least significant digit first. -/
def mulAdd (b : Radix) (factor : UInt32) : UInt32 → List UInt8 → List UInt8
  | carry, [] => b.spill carry
  | carry, d :: rest =>
    let t := carry + d.toUInt32 * factor
    (t % b.size).toUInt8 :: b.mulAdd factor (t / b.size) rest

/-- The value of `digits` of base `old` as a numeral, least significant digit first. -/
def renumber (old new : Radix) (digits : List UInt8) : List UInt8 :=
  digits.foldl (fun acc d => new.mulAdd old.size d.toUInt32 acc) []

/-- The same value, and the same number of leading zeros, in another base. -/
def transcode (old new : Radix) (digits : List UInt8) : List UInt8 :=
  digits.takeWhile (· = 0) ++ (renumber old new digits).reverse

end Radix

end AmountField
