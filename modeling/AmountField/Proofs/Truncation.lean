/-
Truncation to sixteen digits.

`Window.truncate?` is what normalizing means, said of numbers instead of digits: the exponent is
the one that leaves sixteen digits in front of the point, the digits behind the point are cut
off, and a number is zero below the exponents of the window and has no value above them.  The
loops that compute it are the business of the module on normalization.

Three facts carry the rest.  The truncation is a value of the window and no larger than the
number.  It is the largest such value (`abs_value_le_truncate?`), hence it keeps the order of
numbers.  And the values of the window are their own truncations, so nothing is lost in them.
-/
import AmountField.Proofs.Decimal.Value
import AmountField.Proofs.Packing

namespace AmountField.Issued

/-- The exponent at which the magnitude of a number has sixteen digits in front of the point. -/
def leadingExponent (v : ℚ) : ℤ := Int.log 10 |v| - 15

/-- The value of a number with the digits beyond the sixteenth cut off; `none` if the number is
too large for the window. -/
def Window.truncate? (w : Window) (v : ℚ) : Option Canonical :=
  if v = 0 then some .zero
  else if leadingExponent v < w.minExponent then some .zero
  else if w.maxExponent < leadingExponent v then none
  else
    some (.normalized (v < 0) (UInt64.ofNat ⌊|v| / (10 : ℚ) ^ leadingExponent v⌋₊)
      (Int32.ofInt (leadingExponent v)))

theorem leadingExponent_mono {u v : ℚ} (hu : u ≠ 0) (h : |u| ≤ |v|) :
    leadingExponent u ≤ leadingExponent v := by
  have hlog := Int.log_mono_right (b := 10) (abs_pos.mpr hu) h
  unfold leadingExponent
  omega

/-- At its leading exponent a number has sixteen digits in front of the point. -/
theorem magnitude_bounds {v : ℚ} (h : v ≠ 0) :
    (10 : ℚ) ^ 15 ≤ |v| / (10 : ℚ) ^ leadingExponent v ∧
      |v| / (10 : ℚ) ^ leadingExponent v < (10 : ℚ) ^ 16 := by
  obtain ⟨hl, hu⟩ := isOrder_log h
  have hpos := ten_zpow_pos (leadingExponent v)
  have hlow : (10 : ℚ) ^ 15 * (10 : ℚ) ^ leadingExponent v = (10 : ℚ) ^ Int.log 10 |v| := by
    rw [← zpow_natCast, ← ten_zpow_add]
    congr 1
    simp [leadingExponent]
  have hhigh : (10 : ℚ) ^ 16 * (10 : ℚ) ^ leadingExponent v
      = (10 : ℚ) ^ (Int.log 10 |v| + 1) := by
    rw [← zpow_natCast, ← ten_zpow_add]
    congr 1
    simp [leadingExponent]
    ring
  refine ⟨?_, ?_⟩
  · rw [le_div_iff₀ hpos, hlow]
    exact hl
  · rw [div_lt_iff₀ hpos, hhigh]
    exact hu

theorem floor_bounds {v : ℚ} (h : v ≠ 0) :
    10 ^ 15 ≤ ⌊|v| / (10 : ℚ) ^ leadingExponent v⌋₊ ∧
      ⌊|v| / (10 : ℚ) ^ leadingExponent v⌋₊ < 10 ^ 16 := by
  obtain ⟨hl, hu⟩ := magnitude_bounds h
  have hnonneg : 0 ≤ |v| / (10 : ℚ) ^ leadingExponent v :=
    div_nonneg (abs_nonneg v) (ten_zpow_pos _).le
  exact ⟨Nat.le_floor (by exact_mod_cast hl), (Nat.floor_lt hnonneg).mpr (by exact_mod_cast hu)⟩

namespace Canonical

/-- The number that a value stands for. -/
def value (c : Canonical) : ℚ := c.toDecimal.value

@[simp]
theorem value_zero : zero.value = 0 := by simp [value, toDecimal, Decimal.zero, Decimal.value]

/-- The exponent of a value is its scale negated, for which 64 bits have room. -/
theorem toInt_scale (negative : Bool) (m : UInt64) (e : Int32) :
    (normalized negative m e).toDecimal.scale.toInt = -e.toInt := by
  have hl : -2 ^ 31 ≤ e.toInt := e.le_toInt
  show (-e.toInt64).toInt = _
  rw [Word.toInt_neg (by rw [Int32.toInt_toInt64]; omega), Int32.toInt_toInt64]

theorem value_normalized (negative : Bool) (m : UInt64) (e : Int32) :
    (normalized negative m e).value
      = (if negative then -1 else 1) * (m.toNat * (10 : ℚ) ^ e.toInt) := by
  rw [value, Decimal.value, toInt_scale, neg_neg]
  cases negative <;> simp [toDecimal]

theorem abs_value_normalized (negative : Bool) (m : UInt64) (e : Int32) :
    |(normalized negative m e).value| = m.toNat * (10 : ℚ) ^ e.toInt := by
  have hnonneg : (0 : ℚ) ≤ m.toNat * (10 : ℚ) ^ e.toInt :=
    mul_nonneg (Nat.cast_nonneg _) (ten_zpow_pos _).le
  rw [value_normalized]
  cases negative <;> simp [abs_of_nonneg hnonneg]

end Canonical

namespace Window

/-! ### What a truncation is -/

@[simp]
theorem truncate?_zero (w : Window) : w.truncate? 0 = some .zero := by simp [truncate?]

/-- The three things that can become of a nonzero number. -/
theorem truncate?_cases (w : Window) {v : ℚ} (h : v ≠ 0) :
    (leadingExponent v < w.minExponent ∧ w.truncate? v = some .zero) ∨
    (w.maxExponent < leadingExponent v ∧ w.truncate? v = none) ∨
    (∃ (m : UInt64) (e : Int32), w.contains m e = true ∧
      m.toNat = ⌊|v| / (10 : ℚ) ^ leadingExponent v⌋₊ ∧ e.toInt = leadingExponent v ∧
      w.truncate? v = some (.normalized (v < 0) m e)) := by
  have hleast := w.least_le
  have hgreatest := w.le_greatest
  have hcross := w.min_le_max
  unfold truncate?
  rw [if_neg h]
  by_cases hmin : leadingExponent v < w.minExponent
  · exact Or.inl ⟨hmin, if_pos hmin⟩
  · rw [if_neg hmin]
    by_cases hmax : w.maxExponent < leadingExponent v
    · exact Or.inr (Or.inl ⟨hmax, if_pos hmax⟩)
    · rw [if_neg hmax]
      obtain ⟨hl, hu⟩ := floor_bounds h
      have hm : (UInt64.ofNat ⌊|v| / (10 : ℚ) ^ leadingExponent v⌋₊).toNat
          = ⌊|v| / (10 : ℚ) ^ leadingExponent v⌋₊ := by
        rw [UInt64.toNat_ofNat']
        exact Nat.mod_eq_of_lt (by omega)
      have he : (Int32.ofInt (leadingExponent v)).toInt = leadingExponent v :=
        Int32.toInt_ofInt_of_le (by omega) (by omega)
      refine Or.inr (Or.inr ⟨_, _, contains_iff.mpr ?_, hm, he, rfl⟩)
      rw [hm, he]
      exact ⟨⟨hl, hu⟩, by omega, by omega⟩

theorem within_of_truncate? {w : Window} {v : ℚ} {c : Canonical} (h : w.truncate? v = some c) :
    c.Within w := by
  by_cases hv : v = 0
  · rw [hv, truncate?_zero] at h
    cases h
    trivial
  · rcases w.truncate?_cases hv with ⟨-, hz⟩ | ⟨-, hn⟩ | ⟨m, e, hc, -, -, hs⟩
    · rw [hz] at h
      cases h
      trivial
    · rw [hn] at h
      cases h
    · rw [hs] at h
      cases h
      exact hc

theorem truncate?_toward_zero {w : Window} {v : ℚ} {c : Canonical} (h : w.truncate? v = some c) :
    |c.value| ≤ |v| ∧ (0 ≤ v → 0 ≤ c.value) ∧ (v ≤ 0 → c.value ≤ 0) := by
  by_cases hv : v = 0
  · rw [hv, truncate?_zero] at h
    cases h
    simp
  · rcases w.truncate?_cases hv with ⟨-, hz⟩ | ⟨-, hn⟩ | ⟨m, e, -, hm, he, hs⟩
    · rw [hz] at h
      cases h
      simp
    · rw [hn] at h
      cases h
    · rw [hs] at h
      cases h
      have hpow := ten_zpow_pos e.toInt
      have hnonneg : (0 : ℚ) ≤ m.toNat * (10 : ℚ) ^ e.toInt :=
        mul_nonneg (Nat.cast_nonneg _) hpow.le
      refine ⟨?_, ?_, ?_⟩
      · rw [Canonical.abs_value_normalized, ← le_div_iff₀ hpow, hm, he]
        exact Nat.floor_le (div_nonneg (abs_nonneg v) (ten_zpow_pos _).le)
      · intro hv'
        rw [Canonical.value_normalized, decide_eq_false hv'.not_gt]
        simpa using hnonneg
      · intro hv'
        rw [Canonical.value_normalized, decide_eq_true (lt_of_le_of_ne hv' hv)]
        simpa using hnonneg

/-! ### The largest value below -/

theorem leadingExponent_value {w : Window} (negative : Bool) {m : UInt64} {e : Int32}
    (h : w.contains m e = true) :
    leadingExponent (Canonical.normalized negative m e).value = e.toInt := by
  obtain ⟨⟨hl, hu⟩, -⟩ := contains_iff.mp h
  have hlow : (10 : ℚ) ^ (15 : ℤ) ≤ m.toNat := by exact_mod_cast hl
  have hhigh : (m.toNat : ℚ) < (10 : ℚ) ^ ((15 : ℤ) + 1) := by exact_mod_cast hu
  rw [leadingExponent, Canonical.abs_value_normalized, log_ten_scaled hlow hhigh]
  ring

theorem value_ne_zero {w : Window} (negative : Bool) {m : UInt64} {e : Int32}
    (h : w.contains m e = true) : (Canonical.normalized negative m e).value ≠ 0 := by
  obtain ⟨⟨hl, -⟩, -⟩ := contains_iff.mp h
  have hm : (0 : ℚ) < m.toNat := by exact_mod_cast (by omega : 0 < m.toNat)
  rw [← abs_pos, Canonical.abs_value_normalized]
  exact mul_pos hm (ten_zpow_pos _)

/-- **The truncation of a number is the largest value of the window that does not exceed it.** -/
theorem abs_value_le_truncate? {w : Window} {v : ℚ} {c d : Canonical}
    (h : w.truncate? v = some c) (hd : d.Within w) (hle : |d.value| ≤ |v|) :
    |d.value| ≤ |c.value| := by
  cases d with
  | zero => simp
  | normalized negative m' e' =>
      have hne := value_ne_zero negative hd
      have hv : v ≠ 0 := by
        intro heq
        subst heq
        rw [abs_zero] at hle
        exact hne (abs_nonpos_iff.mp hle)
      have hexp := leadingExponent_mono hne hle
      rw [leadingExponent_value negative hd] at hexp
      obtain ⟨⟨-, hm'⟩, hmin, -⟩ := contains_iff.mp hd
      rcases w.truncate?_cases hv with ⟨hlow, -⟩ | ⟨-, hn⟩ | ⟨m, e, hc, hm, he, hs⟩
      · omega
      · rw [hn] at h
        cases h
      · rw [hs] at h
        cases h
        rw [Canonical.abs_value_normalized] at hle ⊢
        rw [Canonical.abs_value_normalized]
        rcases Int.lt_or_le e'.toInt e.toInt with hlt | hge
        · -- a smaller exponent: every mantissa there is below the least one here
          obtain ⟨⟨hl, -⟩, -⟩ := contains_iff.mp hc
          have hl' : (10 : ℚ) ^ (15 : ℤ) ≤ m.toNat := by exact_mod_cast hl
          have hu' : (m'.toNat : ℚ) ≤ (10 : ℚ) ^ (16 : ℤ) := by exact_mod_cast hm'.le
          calc (m'.toNat : ℚ) * (10 : ℚ) ^ e'.toInt
              ≤ (10 : ℚ) ^ (16 : ℤ) * (10 : ℚ) ^ e'.toInt :=
                mul_le_mul_of_nonneg_right hu' (ten_zpow_pos _).le
            _ = (10 : ℚ) ^ (16 + e'.toInt) := (ten_zpow_add _ _).symm
            _ ≤ (10 : ℚ) ^ (15 + e.toInt) := ten_zpow_le (by omega)
            _ = (10 : ℚ) ^ (15 : ℤ) * (10 : ℚ) ^ e.toInt := ten_zpow_add _ _
            _ ≤ m.toNat * (10 : ℚ) ^ e.toInt :=
                mul_le_mul_of_nonneg_right hl' (ten_zpow_pos _).le
        · -- the same exponent: the mantissa is a floor
          have heq : e'.toInt = leadingExponent v := by omega
          rw [heq] at hle ⊢
          rw [he]
          have hfloor : m'.toNat ≤ m.toNat := by
            rw [hm]
            exact Nat.le_floor ((le_div_iff₀ (ten_zpow_pos _)).mpr hle)
          exact mul_le_mul_of_nonneg_right (by exact_mod_cast hfloor) (ten_zpow_pos _).le

/-- Truncation keeps the order of numbers. -/
theorem truncate?_mono {w : Window} {u v : ℚ} {c d : Canonical} (huv : u ≤ v)
    (hu : w.truncate? u = some c) (hv : w.truncate? v = some d) : c.value ≤ d.value := by
  obtain ⟨hcle, hcpos, hcneg⟩ := truncate?_toward_zero hu
  obtain ⟨hdle, hdpos, hdneg⟩ := truncate?_toward_zero hv
  rcases le_total 0 u with hu0 | hu0
  · have hv0 : 0 ≤ v := le_trans hu0 huv
    have habs : |c.value| ≤ |v| := by
      rw [abs_of_nonneg hu0] at hcle
      rw [abs_of_nonneg hv0]
      exact le_trans hcle huv
    have hle := abs_value_le_truncate? hv (within_of_truncate? hu) habs
    rwa [abs_of_nonneg (hcpos hu0), abs_of_nonneg (hdpos hv0)] at hle
  · rcases le_total 0 v with hv0 | hv0
    · exact le_trans (hcneg hu0) (hdpos hv0)
    · have habs : |d.value| ≤ |u| := by
        rw [abs_of_nonpos hv0] at hdle
        rw [abs_of_nonpos hu0]
        exact le_trans hdle (neg_le_neg huv)
      have hle := abs_value_le_truncate? hu (within_of_truncate? hv) habs
      rw [abs_of_nonpos (hcneg hu0), abs_of_nonpos (hdneg hv0)] at hle
      exact neg_le_neg_iff.mp hle

theorem truncate?_eq_none_mono {w : Window} {u v : ℚ} (huv : |u| ≤ |v|)
    (hu : w.truncate? u = none) : w.truncate? v = none := by
  have hcross := w.min_le_max
  have hu0 : u ≠ 0 := by
    intro heq
    subst heq
    simp at hu
  have hv0 : v ≠ 0 := by
    intro heq
    subst heq
    rw [abs_zero] at huv
    exact hu0 (abs_nonpos_iff.mp huv)
  have hexp := leadingExponent_mono hu0 huv
  rcases w.truncate?_cases hu0 with ⟨-, hz⟩ | ⟨hlarge, -⟩ | ⟨m, e, -, -, -, hs⟩
  · rw [hz] at hu
    cases hu
  · rcases w.truncate?_cases hv0 with ⟨hsmall, -⟩ | ⟨-, hn⟩ | ⟨m, e, hc, -, he, -⟩
    · omega
    · exact hn
    · obtain ⟨-, -, hmax⟩ := contains_iff.mp hc
      omega
  · rw [hs] at hu
    cases hu

/-! ### Values are kept -/

/-- **A value of the window is its own truncation.** -/
theorem truncate?_value {w : Window} {c : Canonical} (h : c.Within w) :
    w.truncate? c.value = some c := by
  cases c with
  | zero => rw [Canonical.value_zero, truncate?_zero]
  | normalized negative m e =>
      have hne := value_ne_zero negative h
      have hexp := leadingExponent_value negative h
      obtain ⟨-, hmin, hmax⟩ := contains_iff.mp h
      rcases w.truncate?_cases hne with ⟨hsmall, -⟩ | ⟨hlarge, -⟩ | ⟨m', e', -, hm, he, hs⟩
      · omega
      · omega
      · have hsign : decide ((Canonical.normalized negative m e).value < 0) = negative := by
          have habs := abs_pos.mpr hne
          rw [Canonical.abs_value_normalized] at habs
          rw [Canonical.value_normalized]
          cases negative
          · simpa using habs.le
          · simpa using habs
        have hm' : m' = m := by
          rw [hexp, Canonical.abs_value_normalized,
            mul_div_cancel_right₀ _ (ten_zpow_pos e.toInt).ne', Nat.floor_natCast] at hm
          exact UInt64.toNat_inj.mp hm
        have he' : e' = e := Int32.toInt_inj.mp (by rw [he, hexp])
        rw [hs, hsign, hm', he']

end Window

end AmountField.Issued
