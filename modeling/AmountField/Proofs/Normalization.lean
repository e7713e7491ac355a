/-
Normalizing a decimal truncates its number.

The digits are padded and cut one at a time while a 64-bit exponent follows.  `pad_spec` and
`cut_of_fits` say what each loop does as a whole: the exponent plus the number of digits never
changes, so once there are sixteen digits the exponent is the leading exponent of the number.
The guards of the loops keep the exponent between the bounds of the window while it moves,
which is why no step of it wraps around.

`ofDecimal_truncates` puts the cases together.  The loops stop early at the bounds of the
window, and wherever they do, the leading exponent lies beyond the same bound: what is left too
short is a number below the window, what is left too long is one above it.
-/
import AmountField.Issued.Normalize
import AmountField.Proofs.Results
import AmountField.Proofs.Truncation
import Mathlib.Algebra.Order.Floor.Semifield

namespace AmountField.Issued

namespace Coefficient

/-! ### Padding -/

/-- Padding puts as many zeros behind the digits as are missing and as the window allows. -/
theorem pad_spec {least : Int} (hleast : -96 ≤ least) (missing : Nat) :
    ∀ c : Coefficient, ∃ k ≤ missing,
      (pad least missing c).digits = List.replicate k '0' ++ c.digits ∧
      (pad least missing c).exponent.toInt = c.exponent.toInt - k ∧
      (k < missing → c.exponent.toInt - k ≤ least) ∧ (0 < k → least ≤ c.exponent.toInt - k) := by
  induction missing with
  | zero => intro c; exact ⟨0, by simp, rfl, by simp [pad], by simp, by simp⟩
  | succ missing ih =>
      intro c
      unfold pad
      by_cases hc : least < c.exponent.toInt
      · rw [if_pos hc]
        have hstep := Word.toInt_sub_one (e := c.exponent) (by omega)
        obtain ⟨k, hk, hdigits, hexp, hstop, hfloor⟩ := ih ⟨'0' :: c.digits, c.exponent - 1⟩
        simp only [hstep] at hexp hstop hfloor
        refine ⟨k + 1, by omega, ?_, by rw [hexp]; push_cast; ring, by omega, by omega⟩
        rw [hdigits, List.replicate_succ', List.append_assoc]
        rfl
      · rw [if_neg hc]
        exact ⟨0, by omega, rfl, by simp, by omega, by omega⟩

/-! ### Cutting -/

theorem cut_of_short {greatest : Int} {ds : List Char} (h : ds.length ≤ precision) (e : Int64) :
    cut greatest ds e = some ⟨ds, e⟩ := by
  cases ds with
  | nil => rfl
  | cons d rest => rw [cut, if_pos h]

/-- Cutting drops the digits beyond the sixteenth, when the exponent has room for as many. -/
theorem cut_of_fits {greatest : Int} (hgreatest : greatest ≤ 80) (k : Nat) :
    ∀ (ds : List Char) (e : Int64), ds.length = precision + k → e.toInt + k ≤ greatest →
      ∃ e', cut greatest ds e = some ⟨ds.drop k, e'⟩ ∧ e'.toInt = e.toInt + k := by
  induction k with
  | zero =>
      intro ds e hlen _
      exact ⟨e, cut_of_short (by omega) e, by simp⟩
  | succ k ih =>
      intro ds e hlen hroom
      cases ds with
      | nil => simp [precision] at hlen
      | cons d rest =>
          rw [List.length_cons] at hlen
          have hstep := Word.toInt_add_one (e := e) (by omega)
          obtain ⟨e', hcut, he'⟩ := ih rest (e + 1) (by omega) (by
            rw [hstep]
            push_cast at *
            omega)
          refine ⟨e', ?_, by rw [he', hstep]; push_cast; ring⟩
          rw [cut, if_neg (by rw [List.length_cons]; omega), if_neg (by omega), hcut]
          rfl

theorem cut_of_overflow {greatest : Int} (hgreatest : greatest ≤ 80) (k : Nat) :
    ∀ (ds : List Char) (e : Int64), ds.length = precision + (k + 1) → greatest < e.toInt + (k + 1) →
      cut greatest ds e = none := by
  induction k with
  | zero =>
      intro ds e hlen hover
      cases ds with
      | nil => simp [precision] at hlen
      | cons d rest => rw [cut, if_neg (by omega), if_pos (by omega)]
  | succ k ih =>
      intro ds e hlen hover
      cases ds with
      | nil => simp [precision] at hlen
      | cons d rest =>
          rw [cut, if_neg (by omega)]
          by_cases he : greatest ≤ e.toInt
          · rw [if_pos he]
          · rw [if_neg he]
            rw [List.length_cons] at hlen
            have hstep := Word.toInt_add_one (e := e) (by omega)
            exact ih rest (e + 1) (by omega) (by rw [hstep]; push_cast at *; omega)

/-! ### Both loops -/

/-- The exponent of a coefficient once it has sixteen digits. -/
def leading (c : Coefficient) : Int := c.exponent.toInt + c.digits.length - precision

/-- What the loops leave of a coefficient below the window is too short or has too small an
exponent. -/
theorem fit?_of_small {w : Window} {c : Coefficient} (h : c.leading < w.minExponent) :
    ∃ c', c.fit? w = some c' ∧
      (c'.exponent.toInt < w.minExponent ∨ c'.digits.length < precision) := by
  have hgreatest := w.le_greatest
  have hcross := w.min_le_max
  obtain ⟨k, hk, hdigits, hexp, hstop, -⟩ := pad_spec w.least_le (precision - c.digits.length) c
  have hlen := congrArg List.length hdigits
  rw [List.length_append, List.length_replicate] at hlen
  unfold leading at h
  unfold fit?
  rcases Nat.le_total c.digits.length precision with hshort | hlong
  · refine ⟨_, cut_of_short (by omega) _, ?_⟩
    rcases Nat.lt_or_ge k (precision - c.digits.length) with hlt | hge
    · exact Or.inr (by simp only; omega)
    · exact Or.inl (by simp only; omega)
  · obtain ⟨e', hcut, he'⟩ := cut_of_fits hgreatest (c.digits.length - precision)
      (c.pad w.minExponent (precision - c.digits.length)).digits
      (c.pad w.minExponent (precision - c.digits.length)).exponent (by omega) (by omega)
    exact ⟨_, hcut, Or.inl (by simp only; omega)⟩

/-- A coefficient above the window is given up, or keeps too large an exponent. -/
theorem fit?_of_large {w : Window} {c : Coefficient} (h : w.maxExponent < c.leading) :
    c.fit? w = none ∨ ∃ c', c.fit? w = some c' ∧ w.maxExponent < c'.exponent.toInt ∧
      c'.digits.length = precision := by
  have hgreatest := w.le_greatest
  have hcross := w.min_le_max
  obtain ⟨k, hk, hdigits, hexp, hstop, -⟩ := pad_spec w.least_le (precision - c.digits.length) c
  have hlen := congrArg List.length hdigits
  rw [List.length_append, List.length_replicate] at hlen
  unfold leading at h
  unfold fit?
  rcases Nat.lt_or_ge precision c.digits.length with hlong | hshort
  · exact Or.inl (cut_of_overflow hgreatest (c.digits.length - precision - 1) _ _ (by omega)
      (by omega))
  · refine Or.inr ⟨_, cut_of_short (by omega) _, ?_, ?_⟩
    · simp only
      omega
    · simp only
      omega

/-- A coefficient of the window gets its sixteen digits at its leading exponent. -/
theorem fit?_of_mem {w : Window} {c : Coefficient} (hmin : w.minExponent ≤ c.leading)
    (hmax : c.leading ≤ w.maxExponent) :
    ∃ c', c.fit? w = some c' ∧ c'.exponent.toInt = c.leading ∧ c'.digits.length = precision ∧
      c'.digits = List.replicate (precision - c.digits.length) '0'
        ++ c.digits.drop (c.digits.length - precision) := by
  have hgreatest := w.le_greatest
  have hcross := w.min_le_max
  obtain ⟨k, hk, hdigits, hexp, hstop, -⟩ := pad_spec w.least_le (precision - c.digits.length) c
  have hlen := congrArg List.length hdigits
  rw [List.length_append, List.length_replicate] at hlen
  unfold leading at hmin hmax ⊢
  unfold fit?
  rcases Nat.le_total c.digits.length precision with hshort | hlong
  · have hall : k = precision - c.digits.length := by omega
    refine ⟨_, cut_of_short (by omega) _, by simp only; omega, by simp only; omega, ?_⟩
    rw [hdigits, hall, Nat.sub_eq_zero_of_le hshort, List.drop_zero]
  · have hnone : k = 0 := by omega
    obtain ⟨e', hcut, he'⟩ := cut_of_fits hgreatest (c.digits.length - precision)
      (c.pad w.minExponent (precision - c.digits.length)).digits
      (c.pad w.minExponent (precision - c.digits.length)).exponent (by omega) (by omega)
    refine ⟨_, hcut, by simp only; omega, ?_, ?_⟩
    · rw [List.length_drop]
      omega
    · rw [hdigits, hnone, Nat.sub_eq_zero_of_le hlong]
      rfl

end Coefficient

/-! ### Digits and numbers -/

theorem leadingExponent_decimal {d : Decimal} (h : d.digits ≠ 0) :
    leadingExponent d.value = d.digitChars.length - d.scale.toInt - 16 := by
  rw [leadingExponent, Decimal.log_abs_value h, Decimal.order]
  ring

/-- The digits that are kept, as a number: those missing are zeros, those too many are gone. -/
theorem floor_decimal {d : Decimal} (h : d.digits ≠ 0) :
    ⌊|d.value| / (10 : ℚ) ^ leadingExponent d.value⌋₊
      = 10 ^ (precision - d.digitChars.length)
          * (d.digits.natAbs / 10 ^ (d.digitChars.length - precision)) := by
  have hscaled : |d.value| / (10 : ℚ) ^ leadingExponent d.value
      = d.digits.natAbs * (10 : ℚ) ^ ((precision : ℤ) - d.digitChars.length) := by
    rw [Decimal.abs_value, leadingExponent_decimal h, mul_div_assoc,
      ← zpow_sub₀ (by norm_num : (10 : ℚ) ≠ 0)]
    congr 2
    simp only [precision]
    push_cast
    ring
  rw [hscaled]
  rcases Nat.le_total d.digitChars.length precision with hshort | hlong
  · rw [← Nat.cast_sub hshort, zpow_natCast, Nat.sub_eq_zero_of_le hshort, Nat.pow_zero,
      Nat.div_one, Nat.mul_comm]
    exact_mod_cast Nat.floor_natCast (R := ℚ) _
  · rw [← neg_sub, ← Nat.cast_sub hlong, zpow_neg, zpow_natCast, ← div_eq_mul_inv,
      Nat.sub_eq_zero_of_le hlong, Nat.pow_zero, Nat.one_mul]
    exact_mod_cast Nat.floor_div_eq_div (K := ℚ) d.digits.natAbs
      (10 ^ (d.digitChars.length - precision))

theorem mantissa_fit {d : Decimal} {c : Coefficient} (h : d.digits ≠ 0)
    (hc : c.digits = List.replicate (precision - d.digitChars.length) '0'
      ++ d.digitChars.reverse.drop (d.digitChars.length - precision)) :
    c.mantissa = ⌊|d.value| / (10 : ℚ) ^ leadingExponent d.value⌋₊ := by
  have hdigits : ∀ x ∈ d.digitChars, x.isDigit = true := fun x hx =>
    Digits.isDigit_of_mem_toDigits hx
  have hdrop : (d.digitChars.drop (d.digitChars.length
      - (d.digitChars.length - precision))).length = d.digitChars.length - precision := by
    rw [List.length_drop]
    omega
  rw [floor_decimal h, Coefficient.mantissa, hc, List.reverse_append, List.reverse_replicate,
    List.drop_reverse, List.reverse_reverse, Nat.ofDigitChars_append,
    Digits.ofDigitChars_take hdigits, hdrop, Nat.ofDigitChars_replicate_zero, Decimal.digitChars,
    Nat.ofDigitChars_ten_toDigits]

theorem leading_decimal {d : Decimal} (h : d.digits ≠ 0) (hscale : d.scale ≠ Int64.minValue) :
    Coefficient.leading ⟨d.digitChars.reverse, -d.scale⟩ = leadingExponent d.value := by
  have hl : -2 ^ 63 ≤ d.scale.toInt := d.scale.le_toInt
  have hne : d.scale.toInt ≠ -2 ^ 63 := fun heq => hscale (Int64.toInt_inj.mp heq)
  have hneg := Word.toInt_neg (s := d.scale) (by omega)
  simp only [Coefficient.leading, hneg, List.length_reverse, leadingExponent_decimal h, precision]
  push_cast
  ring

theorem normalized_of_fit {w : Window} {d : Decimal} {c : Coefficient} {m : UInt64} {e : Int32}
    (h : d.digits ≠ 0) (hc : w.contains m e = true)
    (hm : m.toNat = ⌊|d.value| / (10 : ℚ) ^ leadingExponent d.value⌋₊)
    (he : e.toInt = leadingExponent d.value) (hexp : c.exponent.toInt = leadingExponent d.value)
    (hdigits : c.digits = List.replicate (precision - d.digitChars.length) '0'
      ++ d.digitChars.reverse.drop (d.digitChars.length - precision)) :
    Canonical.normalized (d.digits < 0) (UInt64.ofNat c.mantissa) c.exponent.toInt32
      = Canonical.normalized (d.value < 0) m e := by
  obtain ⟨-, hmin, hmax⟩ := Window.contains_iff.mp hc
  have hleast := w.least_le
  have hgreatest := w.le_greatest
  have hmantissa : UInt64.ofNat c.mantissa = m := by
    rw [mantissa_fit h hdigits, ← hm, UInt64.ofNat_toNat]
  have hexponent : c.exponent.toInt32 = e := by
    rw [← Int32.toInt_inj, Int64.toInt_toInt32, hexp, ← he]
    apply Int.bmod_eq_of_le <;> omega
  have hsign : decide (d.digits < 0) = decide (d.value < 0) := by
    rw [decide_eq_decide, Decimal.value_neg_iff]
  rw [hmantissa, hexponent, hsign]

namespace Canonical

/-- The least scale leaves no room below the greatest exponent. -/
theorem truncate?_of_minValue (w : Window) {d : Decimal} (h : d.digits ≠ 0)
    (hscale : d.scale = Int64.minValue) : w.truncate? d.value = none := by
  have hgreatest := w.le_greatest
  have hcross := w.min_le_max
  have hlen : 0 < d.digitChars.length := Nat.length_toDigits_pos
  have hmin : d.scale.toInt = -2 ^ 63 := by
    rw [hscale]
    rfl
  have hlead := leadingExponent_decimal h
  rcases w.truncate?_cases (mt Decimal.value_eq_zero_iff.mp h) with
    ⟨hsmall, -⟩ | ⟨-, hnone⟩ | ⟨m, e, hc, -, he, -⟩
  · omega
  · exact hnone
  · obtain ⟨-, -, hmax⟩ := Window.contains_iff.mp hc
    omega

/-- **Normalizing a decimal is truncating its number**, and it fails exactly where the number is
too large for the window, with an overflow. -/
theorem ofDecimal_truncates (w : Window) (d : Decimal) :
    OkOrOverflow (ofDecimal w d) (w.truncate? d.value) := by
  unfold ofDecimal
  by_cases hzero : d.digits = 0
  · rw [Decimal.value_eq_zero_iff.mpr hzero, Window.truncate?_zero]
    simp [Decimal.isZero, hzero, OkOrOverflow]
  rw [if_neg (by simp [Decimal.isZero, hzero])]
  by_cases hscale : d.scale = Int64.minValue
  · rw [if_pos hscale, truncate?_of_minValue w hzero hscale]
    exact ⟨_, rfl, rfl⟩
  rw [if_neg hscale]
  have hleading := leading_decimal hzero hscale
  rcases w.truncate?_cases (mt Decimal.value_eq_zero_iff.mp hzero) with
    ⟨hsmall, hz⟩ | ⟨hlarge, hn⟩ | ⟨m, e, hc, hm, he, hs⟩
  · rw [← hleading] at hsmall
    obtain ⟨c', hfit, hout⟩ := Coefficient.fit?_of_small hsmall
    rw [hz, hfit]
    simp only [if_pos hout, OkOrOverflow]
  · rw [← hleading] at hlarge
    rw [hn]
    rcases Coefficient.fit?_of_large hlarge with hfit | ⟨c', hfit, hexp, hlen⟩
    · rw [hfit]
      exact ⟨_, rfl, rfl⟩
    · have hcross := w.min_le_max
      have hin : ¬ (c'.exponent.toInt < w.minExponent ∨ c'.digits.length < precision) := by omega
      rw [hfit]
      simp only [if_neg hin, if_pos hexp]
      exact ⟨_, rfl, rfl⟩
  · obtain ⟨-, hmin, hmax⟩ := Window.contains_iff.mp hc
    rw [he, ← hleading] at hmin hmax
    obtain ⟨c', hfit, hexp, hlen, hdigits⟩ := Coefficient.fit?_of_mem hmin hmax
    have hin : ¬ (c'.exponent.toInt < w.minExponent ∨ c'.digits.length < precision) := by omega
    have hbelow : ¬ w.maxExponent < c'.exponent.toInt := by omega
    rw [List.length_reverse] at hdigits
    rw [hleading] at hexp
    rw [hs, hfit]
    simp only [if_neg hin, if_neg hbelow, OkOrOverflow]
    rw [normalized_of_fit hzero hc hm he hexp hdigits]

/--
**The order of a decimal decides what it is normalized to.**  A zero is zero.  Any other decimal has
one order `k`, and `k - 15` is the exponent that leaves sixteen digits in front of the point: below
the window it is zero, above it an overflow, and between its bounds it is the number of those
digits at that exponent.
-/
theorem ofDecimal_by_order (w : Window) (d : Decimal) :
    (d.digits = 0 → ofDecimal w d = .ok .zero) ∧
    (d.digits ≠ 0 → ∃! k, IsOrder k d.value) ∧
    (∀ k, IsOrder k d.value →
      (k - 15 < w.minExponent → ofDecimal w d = .ok .zero) ∧
      (w.maxExponent < k - 15 → Overflows (ofDecimal w d)) ∧
      (w.minExponent ≤ k - 15 → k - 15 ≤ w.maxExponent →
        ∃ (m : UInt64) (e : Int32),
          m.toNat = ⌊|d.value| / (10 : ℚ) ^ (k - 15)⌋₊ ∧ e.toInt = k - 15 ∧
          ofDecimal w d = .ok (.normalized (d.value < 0) m e))) := by
  have htruncates := ofDecimal_truncates w d
  have hcross := w.min_le_max
  refine ⟨?_, ?_, ?_⟩
  · intro hzero
    rw [Decimal.value_eq_zero_iff.mpr hzero, Window.truncate?_zero] at htruncates
    exact htruncates
  · intro hne
    exact existsUnique_isOrder (mt Decimal.value_eq_zero_iff.mp hne)
  · intro k hk
    have hlead : leadingExponent d.value = k - 15 := by rw [leadingExponent, hk.log_eq]
    rw [← hlead]
    rcases w.truncate?_cases hk.ne_zero with ⟨hsmall, hz⟩ | ⟨hlarge, hn⟩ | ⟨m, e, hc, hm, he, hs⟩
    · rw [hz] at htruncates
      exact ⟨fun _ => htruncates, fun hlarge => by omega, fun hmin => by omega⟩
    · rw [hn] at htruncates
      exact ⟨fun hsmall => by omega, fun _ => htruncates, fun _ hmax => by omega⟩
    · obtain ⟨-, hmin, hmax⟩ := Window.contains_iff.mp hc
      rw [hs] at htruncates
      exact ⟨fun hsmall => by omega, fun hlarge => by omega,
        fun _ _ => ⟨m, e, hm, he, htruncates⟩⟩

/-- Minus 12345678901234.567 has the order 13, and loses its last digit. -/
theorem ofDecimal_seventeen_digits :
    IsOrder 13 (Decimal.value ⟨-12345678901234567, 3⟩) ∧
      ofDecimal .full ⟨-12345678901234567, 3⟩
        = .ok (.normalized true 1234567890123456 (-2)) := by
  have hvalue : Decimal.value ⟨-12345678901234567, 3⟩ = -(12345678901234567 / 1000) := by
    rw [Decimal.value, show (3 : Int64).toInt = 3 from rfl]
    norm_num
  have horder : IsOrder 13 (Decimal.value ⟨-12345678901234567, 3⟩) := by
    rw [IsOrder, hvalue, abs_neg]
    norm_num [abs_of_pos]
  obtain ⟨m, e, hm, he, hok⟩ :=
    ((ofDecimal_by_order .full ⟨-12345678901234567, 3⟩).2.2 13 horder).2.2 (by decide) (by decide)
  have hm' : m = 1234567890123456 := by
    have hfloor : ⌊|Decimal.value ⟨-12345678901234567, 3⟩| / (10 : ℚ) ^ (13 - 15 : ℤ)⌋₊
        = 1234567890123456 := by
      rw [hvalue, Nat.floor_eq_iff (by positivity), abs_neg]
      norm_num [abs_of_pos]
    rw [hfloor] at hm
    exact UInt64.toNat_inj.mp hm
  have he' : e = -2 := Int32.toInt_inj.mp he
  have hneg : Decimal.value ⟨-12345678901234567, 3⟩ < 0 := by
    rw [hvalue]
    norm_num
  rw [hm', he', decide_eq_true hneg] at hok
  exact ⟨horder, hok⟩

end Canonical

end AmountField.Issued
