/-
The 64-bit value field that leads every amount.

Bit 63 tells the two kinds of amount apart and bit 62 is set when the amount is not
negative; the rest is the business of each kind.  The field of a native amount is a word
whose leading bit is clear, that of an issued amount one whose leading bit is set, and the
two types below say so: a field can only be built by showing which side it is on.
-/
import AmountField.Bytes

namespace AmountField

namespace ValueField

/-- Bit 63, set in the field of an issued amount. -/
def leadingBit : UInt64 := 0x8000000000000000

/-- Bit 62, set in the field of an amount that is not negative. -/
def signBit : UInt64 := 0x4000000000000000

/-- Whether the first byte says that an issued amount follows. -/
def leadsIssued (first : UInt8) : Bool := first &&& 0x80 ≠ 0

/-- Whether the sign bit is set in the first byte; an empty field has none. -/
def signOf : List UInt8 → Bool
  | [] => false
  | first :: _ => first &&& 0x40 ≠ 0

/-- The first byte of a word holds its leading bit. -/
theorem leadsIssued_iff (w : UInt64) :
    leadsIssued (w >>> 56).toUInt8 = true ↔ leadingBit ≤ w := by
  have hw : w.toNat < 2 ^ 64 := w.toNat_lt
  have hbyte : (w >>> 56).toUInt8.toNat = w.toNat / 2 ^ 56 := by
    rw [UInt64.toNat_toUInt8, UInt64.toNat_shiftRight, Nat.shiftRight_eq_div_pow,
      show (56 : UInt64).toNat % 64 = 56 from rfl]
    omega
  have hbit : ∀ n < 256, n &&& 128 = 0 ↔ n < 128 := by decide +kernel
  rw [leadsIssued, decide_eq_true_iff, Ne, ← UInt8.toNat_inj, UInt8.toNat_and, hbyte,
    UInt64.le_iff_toNat_le]
  show ¬ w.toNat / 2 ^ 56 &&& 128 = 0 ↔ 2 ^ 63 ≤ w.toNat
  rw [hbit _ (by omega)]
  omega

theorem leadingBit_le_ofBytes {first : UInt8} (more : Block 7) :
    leadingBit ≤ Word.ofBytes (first :: more.bytes) ↔ leadsIssued first = true := by
  have hlength : (first :: more.bytes).length = 8 := by rw [List.length_cons, more.length_eq]
  have hbytes := Word.toBytes_ofBytes hlength
  have hfirst : (Word.ofBytes (first :: more.bytes) >>> 56).toUInt8 = first :=
    (List.cons.inj hbytes).1
  rw [← leadsIssued_iff, hfirst]

theorem leadingBit_le_or (w : UInt64) : leadingBit ≤ leadingBit ||| w := by
  rw [UInt64.le_iff_toNat_le, UInt64.toNat_or]
  exact Nat.left_le_or

theorem or_lt_leadingBit {v w : UInt64} (hv : v < leadingBit) (hw : w < leadingBit) :
    v ||| w < leadingBit := by
  rw [UInt64.lt_iff_toNat_lt] at *
  rw [UInt64.toNat_or]
  exact Nat.or_lt_two_pow (n := 63) hv hw

end ValueField

/-- The value field of a native amount. -/
structure NativeField where
  word : UInt64
  leading_clear : word < ValueField.leadingBit
  deriving DecidableEq

/-- The value field of an issued amount. -/
structure IssuedField where
  word : UInt64
  leading_set : ValueField.leadingBit ≤ word
  deriving DecidableEq

end AmountField
