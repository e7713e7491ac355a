/-
The number that a decimal stands for.

A decimal is an integer moved by powers of ten, so its value is a rational number and equality
of values does not see the scale.  The one fact about digits that is needed further on is
`log_abs_value`: the order of a decimal, which is computed from the length of its digits, is the
logarithm of its magnitude.  From it comes `lt_iff`: two decimals are compared by their orders, and
by their digits only where the orders agree, and what comes out is the order of their values.
-/
import AmountField.Decimal.Basic
import AmountField.Proofs.Digits
import Mathlib.Algebra.Order.Field.Power
import Mathlib.Data.Int.Log
import Mathlib.Data.Rat.Floor
import Mathlib.Tactic.Positivity

namespace AmountField

theorem ten_zpow_pos (e : ℤ) : (0 : ℚ) < (10 : ℚ) ^ e := zpow_pos (by norm_num) e

theorem ten_zpow_add (a b : ℤ) : (10 : ℚ) ^ (a + b) = (10 : ℚ) ^ a * (10 : ℚ) ^ b :=
  zpow_add₀ (by norm_num) a b

theorem ten_zpow_le {a b : ℤ} (h : a ≤ b) : (10 : ℚ) ^ a ≤ (10 : ℚ) ^ b :=
  zpow_le_zpow_right₀ (by norm_num) h

theorem log_ten_eq {v : ℚ} (hv : 0 < v) {k : ℤ} (hl : (10 : ℚ) ^ k ≤ v)
    (hu : v < (10 : ℚ) ^ (k + 1)) : Int.log 10 v = k := by
  have hle := (Int.zpow_le_iff_le_log (b := 10) (by decide) hv).mp (by simpa using hl)
  have hlt := (Int.lt_zpow_iff_log_lt (b := 10) (by decide) hv).mp (by simpa using hu)
  omega

theorem log_ten_scaled {m : ℚ} {k : ℤ} (hl : (10 : ℚ) ^ k ≤ m) (hu : m < (10 : ℚ) ^ (k + 1))
    (e : ℤ) : Int.log 10 (m * (10 : ℚ) ^ e) = k + e := by
  have hpos : 0 < m := lt_of_lt_of_le (ten_zpow_pos k) hl
  apply log_ten_eq (mul_pos hpos (ten_zpow_pos e))
  · rw [ten_zpow_add]
    exact mul_le_mul_of_nonneg_right hl (ten_zpow_pos e).le
  · rw [show k + e + 1 = (k + 1) + e by ring, ten_zpow_add]
    exact mul_lt_mul_of_pos_right hu (ten_zpow_pos e)

/-- The order of a number: the power of ten that its first digit counts. -/
def IsOrder (k : ℤ) (v : ℚ) : Prop := (10 : ℚ) ^ k ≤ |v| ∧ |v| < (10 : ℚ) ^ (k + 1)

theorem IsOrder.ne_zero {k : ℤ} {v : ℚ} (h : IsOrder k v) : v ≠ 0 :=
  abs_pos.mp (lt_of_lt_of_le (ten_zpow_pos k) h.1)

theorem IsOrder.log_eq {k : ℤ} {v : ℚ} (h : IsOrder k v) : Int.log 10 |v| = k :=
  log_ten_eq (abs_pos.mpr h.ne_zero) h.1 h.2

theorem isOrder_log {v : ℚ} (h : v ≠ 0) : IsOrder (Int.log 10 |v|) v := by
  refine ⟨?_, ?_⟩
  · simpa using Int.zpow_log_le_self (b := 10) (by decide) (abs_pos.mpr h)
  · simpa using Int.lt_zpow_succ_log_self (b := 10) (by decide) |v|

theorem IsOrder.abs_lt {j k : ℤ} {v w : ℚ} (hv : IsOrder j v) (hw : IsOrder k w) (h : j < k) :
    |v| < |w| :=
  lt_of_lt_of_le hv.2 (le_trans (ten_zpow_le (by omega)) hw.1)

/-- A number other than zero has one order. -/
theorem existsUnique_isOrder {v : ℚ} (h : v ≠ 0) : ∃! k, IsOrder k v :=
  ⟨Int.log 10 |v|, isOrder_log h, fun _ hk => hk.log_eq.symm⟩

namespace Decimal

/-- The number that a decimal stands for. -/
def value (d : Decimal) : ℚ := d.digits * (10 : ℚ) ^ (-d.scale.toInt)

theorem value_eq_zero_iff {d : Decimal} : d.value = 0 ↔ d.digits = 0 := by
  rw [value, mul_eq_zero, Int.cast_eq_zero, or_iff_left (ten_zpow_pos _).ne']

theorem value_neg_iff {d : Decimal} : d.value < 0 ↔ d.digits < 0 := by
  have hpow := ten_zpow_pos (-d.scale.toInt)
  unfold value
  rw [mul_neg_iff]
  refine ⟨?_, ?_⟩
  · intro hcases
    rcases hcases with ⟨-, h⟩ | ⟨h, -⟩
    · exact absurd h hpow.le.not_gt
    · exact_mod_cast h
  · intro h
    exact Or.inr ⟨by exact_mod_cast h, hpow⟩

theorem value_pos_iff {d : Decimal} : 0 < d.value ↔ 0 < d.digits := by
  rw [value, mul_pos_iff_of_pos_right (ten_zpow_pos _), Int.cast_pos]

theorem abs_value (d : Decimal) :
    |d.value| = d.digits.natAbs * (10 : ℚ) ^ (-d.scale.toInt) := by
  rw [value, abs_mul, abs_of_pos (ten_zpow_pos _), Nat.cast_natAbs, Int.cast_abs]

theorem log_abs_value {d : Decimal} (h : d.digits ≠ 0) : Int.log 10 |d.value| = d.order := by
  obtain ⟨hl, hu⟩ := Digits.pow_le_of_toDigits (n := d.digits.natAbs) (by omega)
  have hlen : 0 < (Nat.toDigits 10 d.digits.natAbs).length := Nat.length_toDigits_pos
  set k := (Nat.toDigits 10 d.digits.natAbs).length - 1 with hk
  have hsucc : (Nat.toDigits 10 d.digits.natAbs).length = k + 1 := by omega
  rw [hsucc] at hu
  have hlog : Int.log 10 |d.value| = (k : ℤ) + -d.scale.toInt := by
    rw [abs_value]
    apply log_ten_scaled
    · rw [zpow_natCast]
      exact_mod_cast hl
    · rw [show (k : ℤ) + 1 = ((k + 1 : ℕ) : ℤ) by push_cast; ring, zpow_natCast]
      exact_mod_cast hu
  rw [hlog, order, digitChars, hsucc]
  push_cast
  ring

/-! ### Whole numbers -/

/-- The whole number of a decimal is its value, and there is one wherever the value is whole. -/
theorem whole?_eq_some_iff {d : Decimal} {k : Int} : d.whole? = some k ↔ d.value = k := by
  unfold whole?
  by_cases hzero : d.digits = 0
  · have hvalue : d.value = 0 := value_eq_zero_iff.mpr hzero
    rw [hvalue, if_pos (by simp [isZero, hzero]), Option.some.injEq]
    exact_mod_cast Iff.rfl
  · rw [if_neg (by simp [isZero, hzero])]
    by_cases hscale : d.scale.toInt ≤ 0
    · -- the digits are followed by zeros
      obtain ⟨n, hn⟩ : ∃ n : Nat, d.scale.toInt = -n := ⟨(-d.scale.toInt).toNat, by omega⟩
      rw [if_pos hscale, Option.some.injEq, value, hn, neg_neg, Int.toNat_natCast, zpow_natCast]
      exact_mod_cast Iff.rfl
    · -- the digits are divided, and must be divided exactly
      obtain ⟨n, hn⟩ : ∃ n : Nat, d.scale.toInt = n := ⟨d.scale.toInt.toNat, by omega⟩
      have hpow : (0 : ℤ) < 10 ^ n := pow_pos (by norm_num) n
      have hvalue : d.value = k ↔ d.digits = k * 10 ^ n := by
        rw [value, hn, zpow_neg, zpow_natCast, ← div_eq_mul_inv,
          div_eq_iff (by positivity : ((10 : ℚ) ^ n) ≠ 0)]
        exact_mod_cast Iff.rfl
      rw [if_neg hscale, hvalue, hn, Int.toNat_natCast]
      simp only [Nat.pow_eq, Nat.cast_pow, Nat.cast_ofNat]
      refine ⟨?_, ?_⟩
      · intro h
        split at h
        · rename_i hmod
          rw [← Option.some.inj h]
          exact (Int.ediv_mul_cancel (Int.dvd_of_emod_eq_zero hmod)).symm
        · cases h
      · intro h
        rw [h, if_pos (Int.mul_emod_left k _), Int.mul_ediv_cancel k hpow.ne']

/-! ### Comparison -/

theorem abs_value_eq_padded (d other : Decimal) :
    |d.value| = d.padded other *
      (10 : ℚ) ^ (-d.scale.toInt - (other.digitChars.length - d.digitChars.length : ℕ)) := by
  rw [abs_value, padded, Nat.pow_eq, Nat.cast_mul, Nat.cast_pow, Nat.cast_ofNat, mul_assoc,
    ← zpow_natCast, ← ten_zpow_add, add_sub_cancel]

/-- Decimals of one order are compared by their digits. -/
theorem padded_lt_iff {a b : Decimal} (h : a.order = b.order) :
    a.padded b < b.padded a ↔ |a.value| < |b.value| := by
  rw [order, order] at h
  have hshift : -b.scale.toInt - (a.digitChars.length - b.digitChars.length : ℕ)
      = -a.scale.toInt - (b.digitChars.length - a.digitChars.length : ℕ) := by omega
  rw [abs_value_eq_padded a b, abs_value_eq_padded b a, hshift,
    mul_lt_mul_iff_left₀ (ten_zpow_pos _), Nat.cast_lt]

theorem isOrder_value {d : Decimal} (h : d.digits ≠ 0) : IsOrder d.order d.value := by
  rw [← log_abs_value h]
  exact isOrder_log (mt value_eq_zero_iff.mp h)

theorem absLt_iff {a b : Decimal} (ha : a.digits ≠ 0) (hb : b.digits ≠ 0) :
    a.absLt b = true ↔ |a.value| < |b.value| := by
  rw [absLt, Bool.or_eq_true, Bool.and_eq_true, decide_eq_true_iff, decide_eq_true_iff,
    decide_eq_true_iff]
  rcases lt_trichotomy a.order b.order with hlt | heq | hgt
  · exact iff_of_true (Or.inl hlt) ((isOrder_value ha).abs_lt (isOrder_value hb) hlt)
  · rw [or_iff_right (by omega), and_iff_right heq, padded_lt_iff heq]
  · have hle := ((isOrder_value hb).abs_lt (isOrder_value ha) hgt).le
    exact iff_of_false (by omega) hle.not_gt

/-- **Decimals are compared by their values.** -/
theorem lt_iff {a b : Decimal} : a.lt b = true ↔ a.value < b.value := by
  unfold lt
  by_cases ha : a.digits < 0
  · have haneg := value_neg_iff.mpr ha
    rw [if_pos ha, Bool.or_eq_true, decide_eq_true_iff]
    by_cases hb : b.digits < 0
    · have hbneg := value_neg_iff.mpr hb
      rw [or_iff_right (by omega), absLt_iff hb.ne ha.ne, abs_of_neg haneg, abs_of_neg hbneg,
        neg_lt_neg_iff]
    · have hbnonneg : 0 ≤ b.value := not_lt.mp (mt value_neg_iff.mp hb)
      exact iff_of_true (Or.inl (by omega)) (lt_of_lt_of_le haneg hbnonneg)
  · have hanonneg : 0 ≤ a.value := not_lt.mp (mt value_neg_iff.mp ha)
    rw [if_neg ha, Bool.and_eq_true, Bool.or_eq_true, decide_eq_true_iff, isZero,
      decide_eq_true_iff]
    by_cases hb : 0 < b.digits
    · have hbpos := value_pos_iff.mpr hb
      rw [and_iff_right hb]
      by_cases hzero : a.digits = 0
      · exact iff_of_true (Or.inl hzero) (by rwa [value_eq_zero_iff.mpr hzero])
      · rw [or_iff_right hzero, absLt_iff hzero hb.ne', abs_of_nonneg hanonneg, abs_of_pos hbpos]
    · have hbnonpos : b.value ≤ 0 := not_lt.mp (mt value_pos_iff.mp hb)
      exact iff_of_false (fun h => hb h.1) (le_trans hbnonpos hanonneg).not_gt

theorem value_ofNat (n : ℕ) : (ofNat n).value = n := by
  simp [value, ofNat]

theorem value_times (d : Decimal) (n : ℕ) : (d.times n).value = d.value * n := by
  rw [value, value, times]
  push_cast
  ring

end Decimal

end AmountField
