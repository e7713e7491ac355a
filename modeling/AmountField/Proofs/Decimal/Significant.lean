/-
The significant digits of a decimal.

They are its digits without the zeros at their end, so 1500 and 1.5 have two.  A decimal is the
number of these digits moved by a power of ten, and of all integers that it can be written with
this is the least: it has no zero at its end, and any other is it with zeros behind.  So how many
significant digits there are is a property of the number and not of the way it is written, which
is `length_significantDigits_le_iff`.
-/
import AmountField.Proofs.Decimal.Value
import Mathlib.Data.List.DropRight

namespace AmountField.Decimal

/-- The digits of the magnitude without the zeros at their end. -/
def significantDigits (d : Decimal) : List Char := d.digitChars.rdropWhile (· = '0')

/-- The number of the significant digits. -/
def significand (d : Decimal) : Nat := Nat.ofDigitChars 10 d.significantDigits 0

variable {d : Decimal}

theorem exists_digitChars_eq (d : Decimal) :
    ∃ k, d.digitChars = d.significantDigits ++ List.replicate k '0' := by
  refine ⟨(d.digitChars.rtakeWhile (· = '0')).length, ?_⟩
  have hzeros : d.digitChars.rtakeWhile (· = '0')
      = List.replicate (d.digitChars.rtakeWhile (· = '0')).length '0' := by
    apply List.eq_replicate_of_mem
    intro c hc
    simpa using List.mem_rtakeWhile_imp hc
  rw [← hzeros]
  exact List.rdropWhile_append_rtakeWhile.symm

theorem isDigit_of_mem_significantDigits {c : Char} (h : c ∈ d.significantDigits) :
    c.isDigit = true :=
  Digits.isDigit_of_mem_toDigits ((List.rdropWhile_prefix (· = '0') d.digitChars).subset h)

theorem exists_natAbs_eq (d : Decimal) :
    ∃ k, d.digits.natAbs = d.significand * 10 ^ k ∧
      d.digitChars.length = d.significantDigits.length + k := by
  obtain ⟨k, hk⟩ := d.exists_digitChars_eq
  refine ⟨k, ?_, ?_⟩
  · calc d.digits.natAbs = Nat.ofDigitChars 10 d.digitChars 0 :=
          Nat.ofDigitChars_ten_toDigits.symm
      _ = d.significand * 10 ^ k := by
          rw [hk, Digits.ofDigitChars_append, List.length_replicate,
            Nat.ofDigitChars_replicate_zero, Nat.mul_zero, Nat.add_zero, Nat.mul_comm]
          rfl
  · rw [hk, List.length_append, List.length_replicate]

theorem significantDigits_ne_nil (h : d.digits ≠ 0) : d.significantDigits ≠ [] := by
  intro hnil
  obtain ⟨k, hk, -⟩ := d.exists_natAbs_eq
  rw [significand, hnil, Nat.ofDigitChars_nil, Nat.zero_mul] at hk
  omega

theorem significand_mod (h : d.digits ≠ 0) : d.significand % 10 ≠ 0 := by
  obtain ⟨front, c, hc⟩ := (List.eq_nil_or_concat d.significantDigits).resolve_left
    (significantDigits_ne_nil h)
  rw [List.concat_eq_append] at hc
  have hmem : c ∈ d.significantDigits := by simp [hc]
  have hlast : c ≠ '0' := by
    have hnot := List.rdropWhile_last_not (· = '0') d.digitChars (significantDigits_ne_nil h)
    simpa [show d.digitChars.rdropWhile (· = '0') = front ++ [c] from hc] using hnot
  have hne : c.toNat ≠ '0'.toNat := fun heq => hlast (Char.toNat_inj.mp heq)
  obtain ⟨hl, hu⟩ := Char.isDigit_iff_toNat.mp (isDigit_of_mem_significantDigits hmem)
  have hnine : '9'.toNat = '0'.toNat + 9 := rfl
  rw [significand, hc, Digits.ofDigitChars_append, Nat.ofDigitChars_cons, Nat.ofDigitChars_nil,
    List.length_singleton]
  omega

theorem significand_bounds (h : d.digits ≠ 0) :
    10 ^ (d.significantDigits.length - 1) ≤ d.significand ∧
      d.significand < 10 ^ d.significantDigits.length := by
  obtain ⟨k, hk, hlength⟩ := d.exists_natAbs_eq
  refine ⟨?_, Digits.ofDigitChars_lt fun c hc => isDigit_of_mem_significantDigits hc⟩
  have hpos : 0 < d.significantDigits.length := List.length_pos_iff.mpr (significantDigits_ne_nil h)
  have hfirst : 10 ^ (d.digitChars.length - 1) ≤ d.digits.natAbs :=
    (Digits.pow_le_of_toDigits (Int.natAbs_pos.mpr h)).1
  refine Nat.le_of_mul_le_mul_right ?_ (Nat.pow_pos (by decide) : 0 < 10 ^ k)
  calc 10 ^ (d.significantDigits.length - 1) * 10 ^ k
      = 10 ^ (d.significantDigits.length - 1 + k) := (Nat.pow_add 10 _ k).symm
    _ = 10 ^ (d.digitChars.length - 1) := by rw [hlength]; congr 1; omega
    _ ≤ d.digits.natAbs := hfirst
    _ = d.significand * 10 ^ k := hk

/-- The number of a decimal is that of its significant digits, moved by a power of ten. -/
theorem exists_abs_value_eq (d : Decimal) : ∃ j : ℤ, |d.value| = d.significand * (10 : ℚ) ^ j := by
  obtain ⟨k, hk, -⟩ := d.exists_natAbs_eq
  refine ⟨k + -d.scale.toInt, ?_⟩
  rw [abs_value, hk, ten_zpow_add, zpow_natCast]
  push_cast
  ring

theorem mul_pow_eq_of_scaled {a b n : ℕ} {k : ℤ}
    (h : (a : ℚ) * (10 : ℚ) ^ (k + n) = b * (10 : ℚ) ^ k) : a * 10 ^ n = b := by
  rw [ten_zpow_add, zpow_natCast, mul_comm ((10 : ℚ) ^ k), ← mul_assoc] at h
  exact_mod_cast mul_right_cancel₀ (ten_zpow_pos k).ne' h

/-- No integer that the decimal can be written with is smaller: at a greater power of ten the
significant digits would have a zero at their end. -/
theorem significand_le (h : d.digits ≠ 0) {m : ℕ} {k : ℤ} (hm : |d.value| = m * (10 : ℚ) ^ k) :
    d.significand ≤ m := by
  obtain ⟨j, hj⟩ := d.exists_abs_value_eq
  have heq : (d.significand : ℚ) * (10 : ℚ) ^ j = m * (10 : ℚ) ^ k := hj.symm.trans hm
  rcases Int.le_total k j with hle | hle
  · obtain ⟨n, rfl⟩ := Int.le.dest hle
    rw [← mul_pow_eq_of_scaled heq]
    exact Nat.le_mul_of_pos_right _ (Nat.pow_pos (by decide))
  · obtain ⟨n, rfl⟩ := Int.le.dest hle
    have hzeros := mul_pow_eq_of_scaled heq.symm
    cases n with
    | zero => rw [← hzeros, pow_zero, mul_one]
    | succ n =>
        have hmod := significand_mod h
        rw [← hzeros, pow_succ, ← mul_assoc, Nat.mul_mod_left] at hmod
        exact absurd rfl hmod

/-- **A decimal has at most `n` significant digits exactly when its number is an integer of at most
`n` digits, moved by a power of ten.** -/
theorem length_significantDigits_le_iff (h : d.digits ≠ 0) {n : ℕ} :
    d.significantDigits.length ≤ n ↔
      ∃ (m : ℕ) (k : ℤ), m < 10 ^ n ∧ |d.value| = m * (10 : ℚ) ^ k := by
  obtain ⟨hl, hu⟩ := significand_bounds h
  refine ⟨?_, ?_⟩
  · intro hlength
    obtain ⟨j, hj⟩ := d.exists_abs_value_eq
    exact ⟨d.significand, j, Nat.lt_of_lt_of_le hu (Nat.pow_le_pow_right (by decide) hlength), hj⟩
  · intro hparts
    obtain ⟨m, k, hm, hvalue⟩ := hparts
    have hlt : 10 ^ (d.significantDigits.length - 1) < 10 ^ n :=
      calc 10 ^ (d.significantDigits.length - 1) ≤ d.significand := hl
        _ ≤ m := significand_le h hvalue
        _ < 10 ^ n := hm
    have hexp := (Nat.pow_lt_pow_iff_right (by decide : 1 < 10)).mp hlt
    omega

end AmountField.Decimal
