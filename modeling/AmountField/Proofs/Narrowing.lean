/-
A narrower window is the window of the format and a cut.

The bounds of a window steer the loops that normalize a decimal, so two windows take a decimal
through different digits.  What comes out is a truncation in either case, and the digits and the
exponent of a truncation are read off the number before the window is looked at.  So
`ofDecimal_narrow` needs no loop: normalizing in a window is normalizing in the window of the
format and, behind that, `narrow?`, which looks at the exponent alone.

In the other direction there are no loops at all.  A window reads the fields that the format
reads and whose exponent lies within its bounds, and it refuses the others for their form.
-/
import AmountField.Proofs.Normalization
import AmountField.Proofs.RoundTrip

namespace AmountField

namespace Issued

/-! ### Decimals -/

/-- What becomes of a value of the format in a narrower window; `none` if it is too large. -/
def Window.narrow? (w : Window) : Canonical → Option Canonical
  | .zero => some .zero
  | .normalized negative mantissa exponent =>
    if exponent.toInt < w.minExponent then some .zero
    else if w.maxExponent < exponent.toInt then none
    else some (.normalized negative mantissa exponent)

/-- **Truncation to a window is truncation to the format and a cut.** -/
theorem Window.truncate?_narrow (w : Window) (v : ℚ) :
    w.truncate? v = (Window.full.truncate? v).bind w.narrow? := by
  have hleast := w.least_le
  have hgreatest := w.le_greatest
  by_cases hv : v = 0
  · rw [hv, truncate?_zero, truncate?_zero]
    rfl
  rcases Window.full.truncate?_cases hv with
    ⟨hsmall, hz⟩ | ⟨hlarge, hn⟩ | ⟨m, e, -, hm, he, hs⟩
  · have hbelow : leadingExponent v < w.minExponent := lt_of_lt_of_le hsmall hleast
    rw [hz, truncate?, if_neg hv, if_pos hbelow]
    rfl
  · have habove : w.maxExponent < leadingExponent v := lt_of_le_of_lt hgreatest hlarge
    have hcross := w.min_le_max
    rw [hn, truncate?, if_neg hv, if_neg (by omega), if_pos habove]
    rfl
  · have hmantissa : m = UInt64.ofNat ⌊|v| / (10 : ℚ) ^ leadingExponent v⌋₊ := by
      rw [← hm, UInt64.ofNat_toNat]
    have hexponent : e = Int32.ofInt (leadingExponent v) := by
      rw [← he, Int32.ofInt_toInt]
    rw [hs, truncate?, if_neg hv, Option.bind_some, narrow?, he, hmantissa, hexponent]

namespace Canonical

/-- The error of a decimal that is too large for a window. -/
def overflowCause (d : Decimal) : Error :=
  if d.scale = Int64.minValue then .unboundedExponent d else .valueOverflow d

theorem kind_overflowCause (d : Decimal) : (overflowCause d).kind = .overflow := by
  unfold overflowCause
  split <;> rfl

theorem cause_of_ofDecimal {w : Window} {d : Decimal} {cause : Error}
    (h : ofDecimal w d = .error cause) : cause = overflowCause d := by
  unfold ofDecimal at h
  unfold overflowCause
  split at h
  · cases h
  · split at h
    · rename_i hscale
      rw [if_pos hscale]
      exact (Except.error.inj h).symm
    · rename_i hscale
      rw [if_neg hscale]
      split at h
      · exact (Except.error.inj h).symm
      · split at h
        · cases h
        · split at h
          · exact (Except.error.inj h).symm
          · cases h

theorem ofDecimal_eq (w : Window) (d : Decimal) :
    ofDecimal w d = (w.truncate? d.value).elim (.error (overflowCause d)) .ok := by
  have htruncates := ofDecimal_truncates w d
  cases hc : w.truncate? d.value with
  | some c =>
      rw [hc] at htruncates
      exact htruncates
  | none =>
      rw [hc] at htruncates
      obtain ⟨cause, herror, -⟩ := htruncates
      rw [herror, cause_of_ofDecimal herror]
      rfl

/-- A decimal with a value of the format has a scale that can be negated, unless it is zero. -/
theorem overflowCause_of_narrow {w : Window} {d : Decimal} {c : Canonical}
    (h : Window.full.truncate? d.value = some c) (hnarrow : w.narrow? c = none) :
    overflowCause d = .valueOverflow d := by
  apply if_neg
  intro hscale
  by_cases hzero : d.digits = 0
  · rw [Decimal.value_eq_zero_iff.mpr hzero, Window.truncate?_zero] at h
    cases h
    cases hnarrow
  · rw [truncate?_of_minValue .full hzero hscale] at h
    cases h

/-- **Normalizing in a window is normalizing in the window of the format and a cut.** -/
theorem ofDecimal_narrow (w : Window) (d : Decimal) :
    ofDecimal w d = (ofDecimal .full d).bind fun c =>
      (w.narrow? c).elim (.error (.valueOverflow d)) .ok := by
  rw [ofDecimal_eq w, ofDecimal_eq .full, w.truncate?_narrow]
  cases hfull : Window.full.truncate? d.value with
  | none => rfl
  | some c =>
      rw [Option.bind_some]
      show _ = (w.narrow? c).elim (Except.error (Error.valueOverflow d)) Except.ok
      cases hnarrow : w.narrow? c with
      | none => rw [overflowCause_of_narrow hfull hnarrow]
      | some c' => rfl

/-! ### Fields -/

/-- A window reads what the format reads, as far as the exponent lies within its bounds. -/
theorem ofBits_iff_full {w : Window} {bits : UInt64} {c : Canonical} :
    ofBits w bits = .ok c ↔ ofBits .full bits = .ok c ∧ c.ExponentWithin w := by
  refine ⟨?_, ?_⟩
  · intro h
    exact ⟨ofBits_full h, (within_iff.mp (of_ofBits h).1).2⟩
  · intro hparts
    obtain ⟨h, hexp⟩ := hparts
    obtain ⟨hfull, hbits⟩ := of_ofBits h
    exact ofBits_of_toBits (within_iff.mpr ⟨hfull, hexp⟩) hbits

theorem kind_of_ofBits {w : Window} {bits : UInt64} {cause : Error}
    (h : ofBits w bits = .error cause) : cause.kind = .invalidFormat := by
  unfold ofBits at h
  split at h
  · cases h
  · split at h
    · cases h
      rfl
    · simp only at h
      split at h
      · cases h
      · cases h
        rfl

end Canonical

/-- The exponent of a field: the eight bits above the mantissa, less the bias. -/
def fieldExponent (field : IssuedField) : ℤ := (field.word.toNat / 2 ^ 54 % 2 ^ 8 : Nat) - 97

theorem exponentWithin_iff {w : Window} {field : IssuedField} {c : Canonical}
    (h : Canonical.ofBits .full field.word = .ok c) :
    c.ExponentWithin w ↔ field.word = zeroField.word ∨
      (w.minExponent ≤ fieldExponent field ∧ fieldExponent field ≤ w.maxExponent) := by
  unfold Canonical.ofBits at h
  rw [fieldExponent, ← toInt_exponentOfWord]
  by_cases hzero : field.word = zeroField.word
  · rw [if_pos hzero] at h
    cases h
    simp [Canonical.ExponentWithin, hzero]
  · rw [if_neg hzero] at h
    split at h
    · cases h
    · simp only at h
      split at h
      · cases h
        simp [Canonical.ExponentWithin, hzero]
      · cases h

end Issued

/-! ### Amounts -/

namespace Amount

open Issued (Canonical Window fieldExponent zeroField)

/-- Whether the exponent of an amount lies within the bounds of a window; a native amount has no
exponent, and neither has zero. -/
def ExponentWithin (w : Window) : Amount → Prop
  | native _ => True
  | issued field _ _ => field.word = zeroField.word ∨
    (w.minExponent ≤ fieldExponent field ∧ fieldExponent field ≤ w.maxExponent)

instance (w : Window) : DecidablePred (ExponentWithin w)
  | native _ => .isTrue trivial
  | issued field _ _ => inferInstanceAs (Decidable (field.word = zeroField.word ∨
    (w.minExponent ≤ fieldExponent field ∧ fieldExponent field ≤ w.maxExponent)))

/-- A window decodes what the format decodes, as far as the exponent lies within its bounds. -/
theorem toText_iff_full {w : Window} {a : Amount} {t : AmountText} :
    a.toText w = .ok t ↔ a.toText .full = .ok t ∧ a.ExponentWithin w := by
  cases a with
  | native field => simp [toText, ExponentWithin]
  | issued field currency issuer =>
      rw [toText_issued, toText_issued]
      refine ⟨?_, ?_⟩
      · intro hparts
        obtain ⟨c, code, hc, hcode, rfl⟩ := hparts
        obtain ⟨hfull, hexp⟩ := Canonical.ofBits_iff_full.mp hc
        exact ⟨⟨c, code, hfull, hcode, rfl⟩, (Issued.exponentWithin_iff hfull).mp hexp⟩
      · intro hparts
        obtain ⟨⟨c, code, hfull, hcode, rfl⟩, hexp⟩ := hparts
        have hc := Canonical.ofBits_iff_full.mpr ⟨hfull, (Issued.exponentWithin_iff hfull).mpr hexp⟩
        exact ⟨c, code, hc, hcode, rfl⟩

theorem kind_of_toText {w : Window} {a : Amount} {t : AmountText} {cause : Error}
    (hfull : a.toText .full = .ok t) (h : a.toText w = .error cause) :
    cause.kind = .invalidFormat := by
  cases a with
  | native field => cases h
  | issued field currency issuer =>
      obtain ⟨c, code, -, hcode, -⟩ := toText_issued.mp hfull
      cases hbits : Canonical.ofBits w field.word with
      | error cause' =>
          simp only [toText, hbits] at h
          cases h
          exact Canonical.kind_of_ofBits hbits
      | ok c' =>
          have hok : toText w (issued field currency issuer)
              = .ok (.issued c'.render code issuer.toAddress) :=
            toText_issued.mpr ⟨c', code, hbits, hcode, rfl⟩
          rw [hok] at h
          cases h

end Amount

/--
**A window is the window of the format and a cut.**  A decimal that is zero or an overflow in the
format is the same in the window, and any other is zero, an overflow or itself there by its
exponent.  An amount that the window decodes is decoded to the same texts by the format, and one
that the format decodes is refused by the window, for its form, exactly when its exponent lies
outside the bounds.
-/
theorem narrower_window_cuts (w : Issued.Window) :
    (∀ d : Decimal,
      (Issued.Canonical.ofDecimal .full d = .ok .zero →
        Issued.Canonical.ofDecimal w d = .ok .zero) ∧
      (∀ cause, Issued.Canonical.ofDecimal .full d = .error cause →
        cause.kind = .overflow ∧ Issued.Canonical.ofDecimal w d = .error cause) ∧
      (∀ negative mantissa exponent,
        Issued.Canonical.ofDecimal .full d = .ok (.normalized negative mantissa exponent) →
          Issued.Canonical.ofDecimal w d =
            if exponent.toInt < w.minExponent then .ok .zero
            else if w.maxExponent < exponent.toInt then .error (.valueOverflow d)
            else .ok (.normalized negative mantissa exponent))) ∧
    (∀ (a : Amount) (t : AmountText),
      (a.toText w = .ok t → a.toText .full = .ok t) ∧
      (a.toText .full = .ok t →
        (a.ExponentWithin w → a.toText w = .ok t) ∧
        (¬ a.ExponentWithin w →
          ∃ cause, a.toText w = .error cause ∧ cause.kind = .invalidFormat))) := by
  refine ⟨?_, ?_⟩
  · intro d
    have hnarrow := Issued.Canonical.ofDecimal_narrow w d
    refine ⟨?_, ?_, ?_⟩
    · intro hzero
      rw [hnarrow, hzero]
      rfl
    · intro cause herror
      obtain rfl := Issued.Canonical.cause_of_ofDecimal herror
      refine ⟨Issued.Canonical.kind_overflowCause d, ?_⟩
      rw [hnarrow, herror]
      rfl
    · intro negative mantissa exponent hok
      rw [hnarrow, hok]
      simp only [Except.bind, Issued.Window.narrow?]
      split
      · rfl
      · split <;> rfl
  · intro a t
    refine ⟨fun h => (Amount.toText_iff_full.mp h).1, ?_⟩
    intro hfull
    refine ⟨fun hexp => Amount.toText_iff_full.mpr ⟨hfull, hexp⟩, ?_⟩
    intro hexp
    cases hresult : a.toText w with
    | ok t' => exact absurd (Amount.toText_iff_full.mp hresult).2 hexp
    | error cause => exact ⟨cause, rfl, Amount.kind_of_toText hfull hresult⟩

/-- The exponents from -10 to 10 leave out 10 ^ 70 above and one dollar below. -/
theorem narrower_window_cuts_at_ten :
    Issued.Canonical.ofDecimal ⟨-10, 10, by decide, by decide, by decide⟩ ⟨1, -70⟩
        = .error (.valueOverflow ⟨1, -70⟩) ∧
      ∃ cause, Amount.oneDollar.toText ⟨-10, 10, by decide, by decide, by decide⟩ = .error cause ∧
        cause.kind = .invalidFormat := by
  obtain ⟨hdecimals, hamounts⟩ := narrower_window_cuts ⟨-10, 10, by decide, by decide, by decide⟩
  have hfull : Issued.Canonical.ofDecimal .full ⟨1, -70⟩
      = .ok (.normalized false 1000000000000000 55) := rfl
  refine ⟨(hdecimals ⟨1, -70⟩).2.2 _ _ _ hfull, ?_⟩
  exact ((hamounts Amount.oneDollar _).2 Amount.toText_oneDollar).2 (by decide)

end AmountField
