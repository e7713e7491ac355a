/-
The values of a window are a retract of the decimals.

One way a value goes to its decimal.  It is read from a literal, and a literal of a 64-bit mantissa
and a 32-bit exponent is plain and has a scale of 64 bits, so the reading is exact and never fails:
`readDecimal_eq`.  The other way a decimal goes to its truncation, and the values of a window are
their own truncations, so there and back is the identity.

Back and there is not, and `truncate?_eq_self_iff` says where it is.  Truncation takes the floor of
the number at its leading exponent.  A number of at most sixteen digits is an integer at its
leading exponent, since that exponent leaves sixteen digits in front of the point, and the floor of
an integer is the integer.  Conversely a value has a mantissa of sixteen digits.
-/
import AmountField.Proofs.Decimal.Significant
import AmountField.Proofs.Rendering

namespace AmountField.Issued

open Decimal (Plain Sign)

namespace Canonical

/-! ### The literal of a value -/

/-- The literal of a value that is not zero, as a syntax tree. -/
def literalTree (negative : Bool) (m : UInt64) (e : Int32) : Plain where
  sign := .shown negative
  whole := Nat.toDigits 10 m.toNat
  fraction := none
  exponent := some
    { mark := 'e'
      sign := .shown (e.toInt < 0)
      digits := Nat.toDigits 10 e.toInt.natAbs
      isMark := Decimal.isExponentMark_e
      ne_nil := Nat.toDigits_ne_nil
      isDigits := fun _ hc => Digits.isDigit_of_mem_toDigits hc }
  ne_nil := by simp [Nat.toDigits_ne_nil]
  isDigits := by
    intro c hc
    rw [Option.getD_none, List.append_nil] at hc
    exact Digits.isDigit_of_mem_toDigits hc

section

variable {negative : Bool} {m : UInt64} {e : Int32}

theorem toList_toString_int (n : Int) :
    (toString n).toList = (Sign.shown (n < 0)).chars ++ Nat.toDigits 10 n.natAbs := by
  rw [Int.toString_eq_repr, Int.repr_eq_if]
  by_cases hneg : n < 0
  · have habs : (-n).toNat = n.natAbs := by omega
    rw [if_neg (by omega), decide_eq_true hneg, String.toList_append, Nat.toList_repr, habs]
    rfl
  · have habs : n.toNat = n.natAbs := by omega
    rw [if_pos (by omega), decide_eq_false hneg, Nat.toList_repr, habs]
    rfl

theorem text_literalTree : (literalTree negative m e).text = literal negative m e := by
  have hparts : literal negative m e
      = (if negative then "-" else "") ++ toString m.toNat ++ "e" ++ toString e.toInt := rfl
  have hsign : (if negative then "-" else "").toList = (Sign.shown negative).chars := by
    cases negative <;> rfl
  apply String.toList_inj.mp
  rw [hparts]
  simp only [String.toList_append, hsign, toList_toString_int]
  simp [Plain.text, Plain.chars, Plain.body, Plain.tail, literalTree, Decimal.PlainExponent.chars]

theorem coefficient_literalTree :
    (literalTree negative m e).coefficient = (normalized negative m e).toDecimal.digits := by
  have hdigits : (literalTree negative m e).digits = Nat.toDigits 10 m.toNat := List.append_nil _
  rw [Plain.coefficient, hdigits, Nat.ofDigitChars_ten_toDigits]
  cases negative <;> rfl

theorem power_literalTree : (literalTree negative m e).power = e.toInt := by
  show (Sign.shown (e.toInt < 0)).apply (Nat.ofDigitChars 10 (Nat.toDigits 10 e.toInt.natAbs) 0) = _
  rw [Nat.ofDigitChars_ten_toDigits, Sign.apply, Sign.isMinus_shown]
  by_cases hneg : e.toInt < 0
  · rw [if_pos (decide_eq_true hneg)]
    omega
  · rw [if_neg (by simpa using hneg)]
    omega

end

/-- **The decimal of a value is read from its literal**, whatever the mantissa and the exponent. -/
theorem readDecimal_eq (c : Canonical) : c.readDecimal = .ok c.toDecimal := by
  cases c with
  | zero => rfl
  | normalized negative m e =>
      have hl := e.le_toInt
      have hu := e.toInt_lt
      have hplaces : (literalTree negative m e).places = 0 := rfl
      have hscale : ((literalTree negative m e).places : Int) - (literalTree negative m e).power
          = (normalized negative m e).toDecimal.scale.toInt := by
        rw [hplaces, power_literalTree, toInt_scale]
        omega
      have hread : Decimal.ofText (literal negative m e)
          = .ok (normalized negative m e).toDecimal := by
        rcases Plain.ofText_eq (literalTree negative m e) (by rw [hplaces]; decide) with
          ⟨-, hok⟩ | ⟨hfits, -⟩
        · rw [text_literalTree, coefficient_literalTree, hscale, Int64.ofInt_toInt] at hok
          exact hok
        · rw [hscale, toInt_scale, ← Bool.not_eq_true, Decimal.fitsScale_iff] at hfits
          omega
      unfold readDecimal
      simp only [hread]
      rfl

theorem digits_toDecimal (negative : Bool) (m : UInt64) (e : Int32) :
    (normalized negative m e).toDecimal.digits = (-1) ^ negative.toNat * m.toNat := by
  cases negative <;> simp [toDecimal]

end Canonical

namespace Window

/-! ### What truncation loses -/

variable {w : Window} {v : ℚ}

/-- Less than one unit of the last digit is cut off. -/
theorem abs_sub_truncate?_lt {negative : Bool} {m : UInt64} {e : Int32}
    (h : w.truncate? v = some (.normalized negative m e)) :
    |v| - |(Canonical.normalized negative m e).value| < (10 : ℚ) ^ e.toInt := by
  have hv : v ≠ 0 := by
    rintro rfl
    rw [truncate?_zero] at h
    cases h
  rcases w.truncate?_cases hv with ⟨-, hz⟩ | ⟨-, hn⟩ | ⟨m', e', -, hm, he, hs⟩
  · rw [hz] at h
    cases h
  · rw [hn] at h
    cases h
  · rw [hs] at h
    cases h
    have hpow := ten_zpow_pos e.toInt
    have hfloor : |v| / (10 : ℚ) ^ e.toInt < m.toNat + 1 := by
      rw [hm, he]
      exact Nat.lt_floor_add_one _
    rw [div_lt_iff₀ hpow] at hfloor
    rw [Canonical.abs_value_normalized]
    linarith

/-- A number of at most sixteen digits is an integer at its leading exponent. -/
theorem exists_eq_of_digits {m : ℕ} {k : ℤ} (hv : v ≠ 0) (hm : m < 10 ^ 16)
    (hvalue : |v| = m * (10 : ℚ) ^ k) :
    ∃ n : ℕ, |v| / (10 : ℚ) ^ leadingExponent v = n := by
  have hlog : Int.log 10 |v| < 16 + k := by
    have hle : (10 : ℚ) ^ Int.log 10 |v| ≤ |v| := (isOrder_log hv).1
    have hlt : |v| < (10 : ℚ) ^ (16 + k) := by
      have hm' : (m : ℚ) < (10 : ℚ) ^ (16 : ℤ) := by exact_mod_cast hm
      rw [hvalue, ten_zpow_add]
      exact mul_lt_mul_of_pos_right hm' (ten_zpow_pos k)
    exact (zpow_lt_zpow_iff_right₀ (by norm_num)).mp (lt_of_le_of_lt hle hlt)
  obtain ⟨j, hj⟩ : ∃ j : ℕ, k = leadingExponent v + j :=
    ⟨(k - leadingExponent v).toNat, by unfold leadingExponent; omega⟩
  refine ⟨m * 10 ^ j, ?_⟩
  rw [div_eq_iff (ten_zpow_pos _).ne', hvalue, hj, ten_zpow_add, zpow_natCast]
  push_cast
  ring

/-- **A truncation is exact where the number is zero, or is not lost and has at most sixteen
digits.** -/
theorem truncate?_eq_self_iff {c : Canonical} (h : w.truncate? v = some c) :
    c.value = v ↔ v = 0 ∨
      (c ≠ .zero ∧ ∃ (m : ℕ) (k : ℤ), m < 10 ^ 16 ∧ |v| = m * (10 : ℚ) ^ k) := by
  by_cases hv : v = 0
  · rw [hv, truncate?_zero] at h
    cases h
    simp [hv]
  obtain ⟨-, hpos, hneg⟩ := truncate?_toward_zero h
  refine ⟨?_, ?_⟩
  · intro heq
    cases c with
    | zero =>
        rw [Canonical.value_zero] at heq
        exact absurd heq.symm hv
    | normalized negative m e =>
        obtain ⟨⟨-, hm⟩, -⟩ := contains_iff.mp (within_of_truncate? h)
        refine Or.inr ⟨by simp, m.toNat, e.toInt, hm, ?_⟩
        rw [← heq, Canonical.abs_value_normalized]
  · intro hparts
    obtain ⟨hne, m, k, hm, hvalue⟩ := hparts.resolve_left hv
    have habs : |c.value| = |v| := by
      rcases w.truncate?_cases hv with ⟨-, hz⟩ | ⟨-, hn⟩ | ⟨m', e', -, hm', he', hs⟩
      · rw [hz] at h
        exact absurd (Option.some.inj h).symm hne
      · rw [hn] at h
        cases h
      · rw [hs] at h
        cases h
        obtain ⟨n, hn⟩ := exists_eq_of_digits hv hm hvalue
        have hpow := (ten_zpow_pos (leadingExponent v)).ne'
        rw [Canonical.abs_value_normalized, hm', he', hn, Nat.floor_natCast, ← hn,
          div_mul_cancel₀ _ hpow]
    rcases le_total 0 v with hv0 | hv0
    · rwa [abs_of_nonneg (hpos hv0), abs_of_nonneg hv0] at habs
    · rwa [abs_of_nonpos (hneg hv0), abs_of_nonpos hv0, neg_inj] at habs

end Window

namespace Canonical

/-! ### There and back -/

theorem truncate?_of_ofDecimal {w : Window} {d : Decimal} {c : Canonical}
    (h : ofDecimal w d = .ok c) : w.truncate? d.value = some c :=
  (ofDecimal_truncates w d).eq_some h

theorem ofDecimal_toDecimal {w : Window} {c : Canonical} (h : c.Within w) :
    ofDecimal w c.toDecimal = .ok c := by
  have htruncates := ofDecimal_truncates w c.toDecimal
  rw [show w.truncate? c.toDecimal.value = some c from Window.truncate?_value h] at htruncates
  exact htruncates

theorem value_ofDecimal_iff {w : Window} {d : Decimal} {c : Canonical} (h : ofDecimal w d = .ok c) :
    c.toDecimal.value = d.value ↔
      d.value = 0 ∨ (c ≠ zero ∧ d.significantDigits.length ≤ precision) := by
  by_cases hzero : d.digits = 0
  · have hvalue := Decimal.value_eq_zero_iff.mpr hzero
    have htrunc := truncate?_of_ofDecimal h
    rw [hvalue, Window.truncate?_zero] at htrunc
    cases htrunc
    simp [hvalue, toDecimal, Decimal.value_eq_zero_iff, Decimal.zero]
  · rw [Decimal.length_significantDigits_le_iff hzero]
    exact Window.truncate?_eq_self_iff (truncate?_of_ofDecimal h)

/--
**Decimals are retracted to the values of a window, without loss up to sixteen significant digits.**
The decimal of a value can always be read, and is its parts as they stand; a value of the window is
what its decimal is brought to.  A decimal is brought to a value that is no larger, by less than one
unit of its last digit, and it is the same number exactly when it is zero, or is not brought to zero
and has at most sixteen digits in front of the zeros at its end.
-/
theorem retraction :
    (∀ c : Canonical, c.readDecimal = .ok c.toDecimal) ∧
    (∀ (negative : Bool) (m : UInt64) (e : Int32),
      (normalized negative m e).toDecimal.digits = (-1) ^ negative.toNat * m.toNat ∧
      (normalized negative m e).toDecimal.scale.toInt = -e.toInt) ∧
    (∀ (w : Window) (c : Canonical), c.Within w → ofDecimal w c.toDecimal = .ok c) ∧
    (∀ (w : Window) (d : Decimal) (c : Canonical), ofDecimal w d = .ok c →
      |c.toDecimal.value| ≤ |d.value| ∧
      (c.toDecimal.value = d.value ↔
        d.value = 0 ∨ (c ≠ zero ∧ d.significantDigits.length ≤ 16)) ∧
      (∀ (negative : Bool) (m : UInt64) (e : Int32), c = normalized negative m e →
        |d.value| - |c.toDecimal.value| < (10 : ℚ) ^ e.toInt)) := by
  refine ⟨readDecimal_eq, ?_, fun _ _ h => ofDecimal_toDecimal h, ?_⟩
  · intro negative m e
    exact ⟨digits_toDecimal negative m e, toInt_scale negative m e⟩
  · intro w d c h
    have htrunc := truncate?_of_ofDecimal h
    refine ⟨(Window.truncate?_toward_zero htrunc).1, value_ofDecimal_iff h, ?_⟩
    intro negative m e hc
    subst hc
    exact Window.abs_sub_truncate?_lt htrunc

/-- Minus 12345678901234.560 is written with seventeen digits, of which sixteen are significant. -/
theorem retraction_of_trailing_zero :
    ofDecimal .full ⟨-12345678901234560, 3⟩ = .ok (normalized true 1234567890123456 (-2)) ∧
      (Decimal.significantDigits ⟨-12345678901234560, 3⟩).length ≤ 16 ∧
      (normalized true 1234567890123456 (-2)).toDecimal.value
        = Decimal.value ⟨-12345678901234560, 3⟩ := by
  have hok : ofDecimal .full ⟨-12345678901234560, 3⟩
      = .ok (normalized true 1234567890123456 (-2)) := rfl
  have hlength : (Decimal.significantDigits ⟨-12345678901234560, 3⟩).length ≤ 16 := by decide
  exact ⟨hok, hlength, (retraction.2.2.2 .full _ _ hok).2.1.mpr (Or.inr ⟨by decide, hlength⟩)⟩

end Canonical

end AmountField.Issued
