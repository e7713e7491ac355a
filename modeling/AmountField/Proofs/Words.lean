/-
Words as numbers.

A field is put together with shifts, masks and disjunctions, and what is said about it is
arithmetic.  The lemmas here turn the one into the other: a mask of low bits is a remainder, equal
low bits are equal remainders, a single bit is a parity, and a disjunction of parts that do not
overlap is a sum.  The rest is about words with a sign: when such a word is the same number without
one, and when a step or a negation stays inside its range.
-/
import AmountField.Bytes
import Mathlib.Data.Nat.Bitwise

namespace AmountField.Word

theorem toNat_and_mask {v mask : UInt64} {n : Nat} (h : mask.toNat = 2 ^ n - 1) :
    (v &&& mask).toNat = v.toNat % 2 ^ n := by
  rw [UInt64.toNat_and, h, Nat.and_two_pow_sub_one_eq_mod]

theorem and_bit_eq_zero_iff {v bit : UInt64} {n : Nat} (h : bit.toNat = 2 ^ n) :
    v &&& bit = 0 ↔ v.toNat / 2 ^ n % 2 = 0 := by
  have hbit : (v &&& bit).toNat = v.toNat / 2 ^ n % 2 * 2 ^ n := by
    rw [UInt64.toNat_and, h, Nat.and_two_pow, Nat.toNat_testBit]
  rw [← UInt64.toNat_inj, hbit]
  simp

theorem and_bit_ne_zero_iff {v bit : UInt64} {n : Nat} (h : bit.toNat = 2 ^ n) :
    v &&& bit ≠ 0 ↔ v.toNat.testBit n = true := by
  rw [Ne, and_bit_eq_zero_iff h, Nat.testBit_eq_decide_div_mod_eq, decide_eq_true_eq]
  omega

theorem mod_two_pow_eq_iff {v w n : Nat} :
    v % 2 ^ n = w % 2 ^ n ↔ ∀ i < n, v.testBit i = w.testBit i := by
  refine ⟨?_, ?_⟩
  · intro h i hi
    have hbit : (v % 2 ^ n).testBit i = (w % 2 ^ n).testBit i := by rw [h]
    rwa [Nat.testBit_mod_two_pow, Nat.testBit_mod_two_pow, decide_eq_true hi, Bool.true_and,
      Bool.true_and] at hbit
  · intro h
    apply Nat.eq_of_testBit_eq
    intro i
    rw [Nat.testBit_mod_two_pow, Nat.testBit_mod_two_pow]
    by_cases hi : i < n
    · rw [h i hi]
    · rw [decide_eq_false hi, Bool.false_and, Bool.false_and]

/-- A bit of the first byte of a word is the bit 56 places above it in the word. -/
theorem firstByte_and_bit_eq_zero_iff {w : UInt64} {bit : UInt8} {n : Nat}
    (h : bit.toNat = 2 ^ n) :
    (w >>> 56).toUInt8 &&& bit = 0 ↔ w.toNat / 2 ^ (56 + n) % 2 = 0 := by
  have hw : w.toNat < 2 ^ 64 := w.toNat_lt
  have hbyte : (w >>> 56).toUInt8.toNat = w.toNat / 2 ^ 56 := by
    rw [UInt64.toNat_toUInt8, UInt64.toNat_shiftRight, Nat.shiftRight_eq_div_pow,
      show (56 : UInt64).toNat % 64 = 56 from rfl]
    omega
  have hbit : ((w >>> 56).toUInt8 &&& bit).toNat = w.toNat / 2 ^ (56 + n) % 2 * 2 ^ n := by
    rw [UInt8.toNat_and, hbyte, h, Nat.and_two_pow, Nat.toNat_testBit, Nat.div_div_eq_div_mul,
      ← Nat.pow_add]
  rw [← UInt8.toNat_inj, hbit]
  simp

theorem toNat_or_of_lt {v low : UInt64} {n : Nat} (hv : 2 ^ n ∣ v.toNat)
    (hlow : low.toNat < 2 ^ n) : (v ||| low).toNat = v.toNat + low.toNat := by
  obtain ⟨k, hk⟩ := hv
  rw [UInt64.toNat_or, hk, Nat.two_pow_add_eq_or_of_lt hlow]

theorem toInt_toInt32 {v : UInt32} (h : v.toNat < 2 ^ 31) : v.toInt32.toInt = v.toNat := by
  show v.toBitVec.toInt = v.toBitVec.toNat
  rw [BitVec.toInt_eq_toNat_of_lt]
  show 2 * v.toNat < 2 ^ 32
  omega

theorem toNat_toUInt32 {e : Int32} (h : 0 ≤ e.toInt) : (e.toUInt32.toNat : Int) = e.toInt := by
  have hbits : (0 : Int) ≤ e.toBitVec.toInt := h
  show (e.toBitVec.toNat : Int) = e.toBitVec.toInt
  rw [BitVec.toInt_eq_toNat_cond] at hbits ⊢
  split at * <;> omega

/-! ### Words with a sign -/

theorem toInt_neg {s : Int64} (h : -2 ^ 63 < s.toInt) : (-s).toInt = -s.toInt := by
  have hu : s.toInt < 2 ^ 63 := s.toInt_lt
  rw [Int64.toInt_neg]
  apply Int.bmod_eq_of_le <;> omega

theorem toInt_sub_one {e : Int64} (h : -2 ^ 63 < e.toInt) : (e - 1).toInt = e.toInt - 1 := by
  have hu : e.toInt < 2 ^ 63 := e.toInt_lt
  rw [Int64.toInt_sub, show (1 : Int64).toInt = 1 from rfl]
  apply Int.bmod_eq_of_le <;> omega

theorem toInt_add_one {e : Int64} (h : e.toInt < 2 ^ 63 - 1) : (e + 1).toInt = e.toInt + 1 := by
  have hl : -2 ^ 63 ≤ e.toInt := e.le_toInt
  rw [Int64.toInt_add, show (1 : Int64).toInt = 1 from rfl]
  apply Int.bmod_eq_of_le <;> omega

end AmountField.Word
