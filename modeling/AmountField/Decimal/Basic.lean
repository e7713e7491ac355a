/-
Exact decimals.

A decimal is an integer and a scale, and stands for digits · 10 ^ -scale.  Nothing is
normalized: 1.50 and 1.5 are two decimals with one value, and zero keeps the scale that it
was written with.  The digits are unbounded and the scale is a 64-bit integer, so a value
may be far too large to be written out; what is asked of it here, its order of magnitude,
whether it is less than another, is answered from the number of its digits.
-/
namespace AmountField

/-- The number digits · 10 ^ -scale. -/
structure Decimal where
  /-- The digits of the number with its sign. -/
  digits : Int
  /-- How many of the digits stand behind the point. -/
  scale : Int64
  deriving DecidableEq

namespace Decimal

/-- Zero, written without a point. -/
def zero : Decimal := ⟨0, 0⟩

/-- A number, written without a point. -/
def ofNat (n : Nat) : Decimal := ⟨n, 0⟩

/-- The decimal multiplied by a number. -/
def times (d : Decimal) (n : Nat) : Decimal := { d with digits := d.digits * n }

/-- Whether the value is zero, whatever the scale. -/
def isZero (d : Decimal) : Bool := d.digits = 0

/-- The decimal digits of the magnitude, without a leading zero. -/
def digitChars (d : Decimal) : List Char := Nat.toDigits 10 d.digits.natAbs

/-- The power of ten that the first digit of a nonzero decimal counts. -/
def order (d : Decimal) : Int := d.digitChars.length - 1 - d.scale.toInt

/-- The value of a decimal with no fraction, `none` if there is one. -/
def whole? (d : Decimal) : Option Int :=
  let s := d.scale.toInt
  if d.isZero then some 0
  else if s ≤ 0 then some (d.digits * (Nat.pow 10 (-s).toNat : Nat))
  else
    let unit : Int := (Nat.pow 10 s.toNat : Nat)
    if d.digits % unit = 0 then some (d.digits / unit) else none

/-- A whole number has no more digits than the order of its decimal tells. -/
theorem natAbs_lt_of_whole? {d : Decimal} {k : Int} {n : Nat} (h : d.whole? = some k)
    (horder : d.order < n) : k.natAbs < Nat.pow 10 n := by
  have hdigits : d.digits.natAbs < 10 ^ d.digitChars.length :=
    (Nat.length_toDigits_le_iff (by decide) Nat.length_toDigits_pos).mp (Nat.le_refl _)
  rw [order] at horder
  rw [Nat.pow_eq]
  simp only [whole?, Nat.pow_eq] at h
  split at h
  · cases h
    exact Nat.pow_pos (by decide)
  · split at h
    · cases h
      rw [Int.natAbs_mul, Int.natAbs_natCast]
      refine Nat.lt_of_lt_of_le (Nat.mul_lt_mul_of_pos_right hdigits (Nat.pow_pos (by decide))) ?_
      rw [← Nat.pow_add]
      exact Nat.pow_le_pow_right (by decide) (by omega)
    · split at h
      · rename_i hmod
        cases h
        have hmul := Int.ediv_mul_cancel (Int.dvd_of_emod_eq_zero hmod)
        rw [← hmul, Int.natAbs_mul, Int.natAbs_natCast] at hdigits
        have hpow : 10 ^ d.digitChars.length ≤ 10 ^ n * 10 ^ d.scale.toInt.toNat := by
          rw [← Nat.pow_add]
          exact Nat.pow_le_pow_right (by decide) (by omega)
        exact Nat.lt_of_mul_lt_mul_right (Nat.lt_of_lt_of_le hdigits hpow)
      · cases h

/-! ### Comparison -/

/-- The digits of a decimal beside those of another of its order, with zeros behind them where the
other has more. -/
def padded (d other : Decimal) : Nat :=
  d.digits.natAbs * Nat.pow 10 (other.digitChars.length - d.digitChars.length)

/-- Whether the magnitude of a decimal is less than that of another, neither being zero.  Digits are
compared only where the orders agree. -/
def absLt (a b : Decimal) : Bool :=
  a.order < b.order || (a.order = b.order && a.padded b < b.padded a)

/-- Whether a decimal is less than another. -/
def lt (a b : Decimal) : Bool :=
  if a.digits < 0 then 0 ≤ b.digits || absLt b a
  else 0 < b.digits && (a.isZero || absLt a b)

theorem digits_pos_of_not_lt {a b : Decimal} (h : a.lt b = false) (hb : 0 < b.digits) :
    0 < a.digits := by
  rcases Int.lt_trichotomy a.digits 0 with hneg | hzero | hpos
  · rw [lt, if_pos hneg, decide_eq_true (Int.le_of_lt hb)] at h
    cases h
  · rw [lt, if_neg (by omega), isZero, decide_eq_true hb, decide_eq_true hzero] at h
    cases h
  · exact hpos

theorem order_le_of_not_lt {a b : Decimal} (h : a.lt b = false) (ha : 0 < a.digits)
    (hb : 0 < b.digits) : b.order ≤ a.order := by
  have hzero : a.isZero = false := decide_eq_false (by omega)
  rw [lt, if_neg (by omega), hzero, decide_eq_true hb, Bool.true_and, Bool.false_or, absLt,
    Bool.or_eq_false_iff] at h
  have hnot := of_decide_eq_false h.1
  omega

end Decimal

end AmountField
