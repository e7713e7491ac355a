/-
A plain literal is read as its number, unless the number is of no practical size.

The digits of a literal are fewer than 2 ^ 62, so its order is that of its exponent up to a number
of places below 2 ^ 62.  `log_bounds` says so.  The scale leaves the 64-bit integers only with an
exponent beyond 2 ^ 63, and then the order of the number is beyond 2 ^ 62 on the same side:
`ofText_by_order` needs no more of a literal than its number to say which of the two it was.
-/
import AmountField.Proofs.Decimal.Plain
import AmountField.Proofs.Decimal.Value

namespace AmountField.Decimal.Plain

variable {p : Plain}

theorem value_eq_zero_iff : p.value = 0 ↔ p.coefficient = 0 := by
  rw [value, mul_eq_zero, Int.cast_eq_zero, or_iff_left (ten_zpow_pos _).ne']

/-- The first digit of a literal counts a power of ten between those of its ends. -/
theorem log_bounds (h : p.coefficient ≠ 0) :
    p.power - p.places ≤ Int.log 10 |p.value| ∧
      Int.log 10 |p.value| < p.power - p.places + p.digits.length := by
  have hpow := ten_zpow_pos (p.power - p.places)
  have habs : |p.value| = p.coefficient.natAbs * (10 : ℚ) ^ (p.power - p.places) := by
    rw [value, abs_mul, abs_of_pos hpow, Nat.cast_natAbs, Int.cast_abs]
  have hpos : 0 < |p.value| := abs_pos.mpr (mt value_eq_zero_iff.mp h)
  have hone : (1 : ℚ) ≤ p.coefficient.natAbs := by
    exact_mod_cast Int.natAbs_pos.mpr h
  have hlength : (p.coefficient.natAbs : ℚ) < (10 : ℚ) ^ (p.digits.length : ℤ) := by
    rw [zpow_natCast, natAbs_coefficient]
    exact_mod_cast Digits.ofDigitChars_lt p.isDigits
  refine ⟨?_, ?_⟩
  · apply (Int.zpow_le_iff_le_log (by decide) hpos).mp
    calc ((10 : ℕ) : ℚ) ^ (p.power - p.places) = 1 * (10 : ℚ) ^ (p.power - p.places) := by simp
      _ ≤ |p.value| := by
        rw [habs]
        exact mul_le_mul_of_nonneg_right hone hpow.le
  · apply (Int.lt_zpow_iff_log_lt (by decide) hpos).mp
    calc |p.value| < (10 : ℚ) ^ (p.digits.length : ℤ) * (10 : ℚ) ^ (p.power - p.places) := by
          rw [habs]
          exact mul_lt_mul_of_pos_right hlength hpow
      _ = ((10 : ℕ) : ℚ) ^ (p.power - p.places + p.digits.length) := by
          push_cast
          rw [add_comm, ten_zpow_add]

/-- A literal that can be scaled is the decimal that it is read as. -/
theorem value_scaled (h : fitsScale (p.places - p.power) = true) :
    Decimal.value ⟨p.coefficient, Int64.ofInt (p.places - p.power)⟩ = p.value := by
  obtain ⟨hl, hu⟩ := fitsScale_iff.mp h
  have hscale : (Int64.ofInt (p.places - p.power)).toInt = p.places - p.power :=
    Int64.toInt_ofInt_of_le hl (by omega)
  rw [Decimal.value, value, hscale, neg_sub]

/-- **A plain literal is read as its number, or the number has an order beyond 2 ^ 62.** -/
theorem ofText_by_order (h : p.Short) :
    (∃ d, Reading.ofText p.text = .ok (.exact d) ∧ d.value = p.value) ∨
    (Reading.ofText p.text = .ok .unbounded ∧ p.value ≠ 0 ∧ 2 ^ 62 < Int.log 10 |p.value|) ∨
    (Reading.ofText p.text = .ok .vanishing ∧ p.value ≠ 0 ∧ Int.log 10 |p.value| < -2 ^ 62) := by
  have hdigits := h.length_digits_lt
  rw [ofText_plain h]
  rcases p.reading_cases with ⟨hfits, hr⟩ | ⟨-, hzero, hr⟩ | ⟨hne, hhuge, hr⟩ | ⟨hne, htiny, hr⟩
  · exact Or.inl ⟨_, by rw [hr], value_scaled hfits⟩
  · refine Or.inl ⟨_, by rw [hr], ?_⟩
    rw [value_eq_zero_iff.mpr hzero, Decimal.value_eq_zero_iff.mpr rfl]
  · obtain ⟨hlog, -⟩ := log_bounds hne
    exact Or.inr (Or.inl ⟨by rw [hr], mt value_eq_zero_iff.mp hne, by omega⟩)
  · obtain ⟨-, hlog⟩ := log_bounds hne
    exact Or.inr (Or.inr ⟨by rw [hr], mt value_eq_zero_iff.mp hne, by omega⟩)

theorem value_of_exponent_none (h : p.exponent = none) :
    p.value = p.coefficient * (10 : ℚ) ^ (-(p.places : ℤ)) := by
  rw [value, power, h]
  simp

theorem ofText_of_exponent_none (hshort : p.Short) (h : p.exponent = none) :
    ∃ d, Reading.ofText p.text = .ok (.exact d) ∧ d.value = p.value := by
  have hplaces := hshort.places_lt
  have hpower : p.power = 0 := by rw [power, h]
  have hfits : fitsScale (p.places - p.power) = true := fitsScale_iff.mpr (by omega)
  refine ⟨_, ?_, value_scaled hfits⟩
  rw [ofText_plain hshort, reading]
  exact congrArg Except.ok (if_pos hfits)

end AmountField.Decimal.Plain
