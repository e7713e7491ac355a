/-
What a native text is encoded to depends only on its number.

A text with a point is refused before it is read.  A plain literal without one is read as its
number, or else its number has an order beyond 2 ^ 62 and is not admissible: so `verify_plain` can
say by the number alone what passes the tests.  Of what passes, the whole numbers are encoded, and
the others are refused for their fraction.

There is a third refusal, of whole numbers that do not fit in 64 bits.  An admissible number is at
most 10 ^ 17, so it never happens, whatever the text.
-/
import AmountField.Proofs.Decimal.Size
import AmountField.Proofs.Native

namespace AmountField.Native

open Decimal (Plain Reading)

/-! ### Admissible numbers -/

/-- The order of an admissible number is that of a millionth, of 10 ^ 17, or between the two. -/
theorem Admissible.log_bounds {v : ℚ} (h : Admissible v) (hv : v ≠ 0) :
    -6 ≤ Int.log 10 |v| ∧ Int.log 10 |v| ≤ 17 := by
  obtain ⟨hl, hu⟩ := h.resolve_left hv
  have hpos : 0 < v := lt_of_lt_of_le (ten_zpow_pos _) hl
  have hlog : ∀ k : ℤ, Int.log 10 ((10 : ℚ) ^ k) = k := Int.log_zpow (b := 10) (by decide)
  rw [abs_of_pos hpos]
  refine ⟨?_, ?_⟩
  · rw [← hlog (-6)]
    exact Int.log_mono_right (ten_zpow_pos _) hl
  · rw [← hlog 17]
    exact Int.log_mono_right hpos hu

theorem not_admissible_iff {v : ℚ} :
    ¬ Admissible v ↔ v ≠ 0 ∧ (v < 10 ^ (-6 : ℤ) ∨ 10 ^ 17 < v) := by
  rw [Admissible, InRange, not_or, not_and_or, not_le, not_le]

theorem admissible_natCast {n : ℕ} (h : n ≤ 10 ^ 17) : Admissible n := by
  have hint := admissible_intCast_iff (k := n).mpr ⟨by omega, by omega⟩
  rwa [Int.cast_natCast] at hint

/-! ### The tests by number -/

theorem hasPoint_iff {text : String} : hasPoint text = true ↔ '.' ∈ text.toList := by
  rw [hasPoint, List.contains_eq_mem, decide_eq_true_eq]

/-- **A literal without a point passes the tests when its number is admissible.** -/
theorem verify_plain {p : Plain} (hshort : p.Short) (hwhole : p.fraction = none) :
    (Admissible p.value ∧ ∃ d, verify p.text = .ok d ∧ d.value = p.value) ∨
    (¬ Admissible p.value ∧ verify p.text = .error (.nativeRange p.text)) := by
  have hpoint : hasPoint p.text = false := by
    rw [← Bool.not_eq_true, hasPoint_iff, Plain.text, String.toList_ofList]
    exact Plain.point_not_mem_chars hwhole
  -- the last two readings are those of numbers with an order far outside the range
  rcases Plain.ofText_by_order hshort with ⟨d, hr, hvalue⟩ | ⟨hr, hne, hlog⟩ | ⟨hr, hne, hlog⟩
  · rw [← hvalue, ← accepts_iff]
    by_cases haccepts : Accepts d
    · exact Or.inl ⟨haccepts, d, verify_eq_ok_iff.mpr ⟨hpoint, hr, haccepts⟩, rfl⟩
    · exact Or.inr ⟨haccepts, verify_of_reading hpoint hr (by simpa using haccepts)⟩
  · refine Or.inr ⟨?_, verify_of_reading hpoint hr (by simp)⟩
    intro hadmissible
    have hhigh := (hadmissible.log_bounds hne).2
    omega
  · refine Or.inr ⟨?_, verify_of_reading hpoint hr (by simp)⟩
    intro hadmissible
    have hlow := (hadmissible.log_bounds hne).1
    omega

/-! ### The field by number -/

theorem value_of_digits {p : Plain} {n : ℕ} {e : ℤ} (hdigits : p.digits = Nat.toDigits 10 n)
    (hscale : p.power - p.places = e) : p.value = (p.sign.apply n : ℤ) * (10 : ℚ) ^ e := by
  rw [Plain.value, Plain.coefficient, hdigits, Nat.ofDigitChars_ten_toDigits, hscale]

theorem word_ofDrops {n : Nat} (h : n < 2 ^ 62) :
    (ofDrops (UInt64.ofNat n) (ofNat_lt_signBit h)).word = UInt64.ofNat (2 ^ 62 + n) := by
  rw [← UInt64.toNat_inj, toNat_ofDrops h, UInt64.toNat_ofNat_of_lt']
  simp only [UInt64.size]
  omega

/-- A literal without a point is encoded, or it is outside the range, or it is no whole number. -/
theorem encode_plain {p : Plain} (hshort : p.Short) (hwhole : p.fraction = none) :
    (∃ (n : ℕ) (hn : n ≤ 10 ^ 17), p.value = n ∧
      encode p.text = .ok (ofDrops (UInt64.ofNat n) (ofNat_lt_signBit_of_le hn))) ∨
    (¬ Admissible p.value ∧ encode p.text = .error (.nativeRange p.text)) ∨
    (Admissible p.value ∧ (∀ k : ℤ, p.value ≠ k) ∧
      encode p.text = .error (.fractionalDrops p.text)) := by
  rcases verify_plain hshort hwhole with ⟨hadmissible, d, hverify, hvalue⟩ | ⟨hout, hverify⟩
  · have haccepts := accepts_of_verify hverify
    cases hk : d.whole? with
    | some k =>
        obtain ⟨hl, hu⟩ := bounds_of_accepts haccepts hk
        obtain ⟨n, rfl⟩ := Int.eq_ofNat_of_zero_le hl
        have hn : n ≤ 10 ^ 17 := by omega
        refine Or.inl ⟨n, hn, ?_, encode_eq_ok_iff.mpr ⟨d, n, hverify, hk, _, rfl⟩⟩
        rw [← hvalue, Decimal.whole?_eq_some_iff.mp hk, Int.cast_natCast]
    | none =>
        refine Or.inr (Or.inr ⟨hadmissible, ?_, ?_⟩)
        · intro k hvk
          rw [Decimal.whole?_eq_some_iff.mpr (hvalue.trans hvk)] at hk
          cases hk
        · have hdrops : drops p.text d = .error (.fractionalDrops p.text) := by
            rw [drops_of_accepts haccepts, hk]
          exact encode_eq_error_iff.mpr (Or.inr ⟨d, hverify, hdrops⟩)
  · exact Or.inr (Or.inl ⟨hout, encode_eq_error_iff.mpr (Or.inl hverify)⟩)

theorem verify_ne_unfit (text other : String) (fault : Decimal.Fault) :
    verify text ≠ .error (.unfitDrops other fault) := by
  intro h
  rcases verify_cases text with
    ⟨-, hv⟩ | ⟨-, ⟨_, hread, hv⟩ | ⟨_, -, -, hv⟩ | ⟨_, -, -, hv⟩⟩
  · cases hv.symm.trans h
  · cases hv.symm.trans h
    unfold Reading.ofText at hread
    split at hread
    · cases hread
    · split at hread <;> cases hread
  · cases hv.symm.trans h
  · cases hv.symm.trans h

/-- No number that passes the tests is too large for 64 bits. -/
theorem encode_ne_unfit (text other : String) (fault : Decimal.Fault) :
    encode text ≠ .error (.unfitDrops other fault) := by
  intro h
  rcases encode_eq_error_iff.mp h with hverify | ⟨d, hverify, hdrops⟩
  · exact verify_ne_unfit text other fault hverify
  · rw [drops_of_accepts (accepts_of_verify hverify)] at hdrops
    split at hdrops <;> cases hdrops

/--
**The encoding of a native text is exact.**  A point is refused wherever it stands.  A literal
without one is encoded when its number is whole and lies between zero and 10 ^ 17, and then the
field is that number below the sign bit and is decoded to its digits.  It is out of range when its
number is neither zero nor between a millionth and 10 ^ 17, and malformed when it is in that range
and not whole.  Every number is of one of these classes, and no text is refused for a number of more
than 64 bits.
-/
theorem encode_by_number :
    (∀ text : String, '.' ∈ text.toList →
      ∃ cause, encode text = .error cause ∧ cause.kind = .invalidFormat) ∧
    (∀ p : Plain, p.Short → p.fraction = none →
      (∀ n : ℕ, n ≤ 10 ^ 17 → p.value = n → ∃ field, encode p.text = .ok field ∧
        Word.toBytes field.word = Word.toBytes (UInt64.ofNat (2 ^ 62 + n)) ∧
        decode field.word = toString n) ∧
      (p.value ≠ 0 → p.value < 10 ^ (-6 : ℤ) ∨ 10 ^ 17 < p.value →
        ∃ cause, encode p.text = .error cause ∧ cause.kind = .outOfRange) ∧
      (10 ^ (-6 : ℤ) ≤ p.value → p.value ≤ 10 ^ 17 → (∀ k : ℤ, p.value ≠ k) →
        ∃ cause, encode p.text = .error cause ∧ cause.kind = .invalidFormat) ∧
      ((∃ n : ℕ, n ≤ 10 ^ 17 ∧ p.value = n) ∨
        (p.value ≠ 0 ∧ (p.value < 10 ^ (-6 : ℤ) ∨ 10 ^ 17 < p.value)) ∨
        (10 ^ (-6 : ℤ) ≤ p.value ∧ p.value ≤ 10 ^ 17 ∧ ∀ k : ℤ, p.value ≠ k))) ∧
    ∀ (text other : String) (fault : Decimal.Fault),
      encode text ≠ .error (.unfitDrops other fault) := by
  refine ⟨?_, ?_, encode_ne_unfit⟩
  · intro text hmem
    have hverify : verify text = .error (.nativePoint text) := if_pos (hasPoint_iff.mpr hmem)
    exact ⟨_, encode_eq_error_iff.mpr (Or.inl hverify), rfl⟩
  · intro p hshort hwhole
    rw [← not_admissible_iff]
    rcases encode_plain hshort hwhole with
      ⟨n, hn, hvalue, hok⟩ | ⟨hout, herror⟩ | ⟨hin, hfraction, herror⟩
    · have hin : Admissible p.value := hvalue ▸ admissible_natCast hn
      refine ⟨?_, ?_, ?_, Or.inl ⟨n, hn, hvalue⟩⟩
      · intro m _ hm
        have hmn : m = n := by exact_mod_cast hm.symm.trans hvalue
        rw [hmn]
        refine ⟨_, hok, by rw [word_ofDrops (by omega)], ?_⟩
        rw [decode, dropsOfWord_ofDrops (by omega)]
      · intro hne hrange
        exact absurd hin (not_admissible_iff.mpr ⟨hne, hrange⟩)
      · intro _ _ hfraction
        exact absurd (by rw [hvalue, Int.cast_natCast]) (hfraction n)
    · refine ⟨?_, ?_, ?_, Or.inr (Or.inl hout)⟩
      · intro n hn hvalue
        exact absurd (hvalue ▸ admissible_natCast hn) hout
      · intro _ _
        exact ⟨_, herror, rfl⟩
      · intro hl hu _
        exact absurd (Or.inr ⟨hl, hu⟩) hout
    · refine ⟨?_, ?_, ?_, ?_⟩
      · intro n _ hvalue
        exact absurd (by rw [hvalue, Int.cast_natCast]) (hfraction n)
      · intro hne hrange
        exact absurd hin (not_admissible_iff.mpr ⟨hne, hrange⟩)
      · intro _ _ _
        exact ⟨_, herror, rfl⟩
      · have hne : p.value ≠ 0 := by exact_mod_cast hfraction 0
        obtain ⟨hl, hu⟩ := hin.resolve_left hne
        exact Or.inr (Or.inr ⟨hl, hu, hfraction⟩)

/-- The literal of a number of hundredths, with an exponent. -/
def hundredths (s : Decimal.Sign) (n : ℕ) : Plain :=
  { numeral n with
    sign := s
    exponent := some ⟨'e', .minus, ['2'], Decimal.isExponentMark_e, by decide,
      List.all_eq_true.mp rfl⟩ }

theorem value_hundredths (s : Decimal.Sign) (n : ℕ) :
    (hundredths s n).value = (s.apply n : ℤ) * (10 : ℚ) ^ (-2 : ℤ) :=
  value_of_digits (List.append_nil _) rfl

/-- 2500 hundredths are a number of drops, fifty are not whole, and minus a hundred are out of
range. -/
theorem encode_hundredths :
    ((hundredths .none 2500).text = "2500e-2" ∧ (hundredths .none 2500).value = (25 : ℕ) ∧
      ∃ field, encode "2500e-2" = .ok field ∧
        Word.toBytes field.word = Word.toBytes (UInt64.ofNat (2 ^ 62 + 25)) ∧
        decode field.word = toString 25) ∧
    (∃ cause, encode "50e-2" = .error cause ∧ cause.kind = .invalidFormat) ∧
    (∃ cause, encode "-100e-2" = .error cause ∧ cause.kind = .outOfRange) ∧
    (∃ cause, encode "2.5" = .error cause ∧ cause.kind = .invalidFormat) := by
  have hwhole : (hundredths .none 2500).value = (25 : ℕ) := by
    rw [value_hundredths]
    norm_num [Decimal.Sign.apply, Decimal.Sign.isMinus]
  have hhalf : (hundredths .none 50).value = 1 / 2 := by
    rw [value_hundredths]
    norm_num [Decimal.Sign.apply, Decimal.Sign.isMinus]
  have hminus : (hundredths .minus 100).value = -1 := by
    rw [value_hundredths]
    norm_num [Decimal.Sign.apply, Decimal.Sign.isMinus]
  obtain ⟨hpoint, hliteral, -⟩ := encode_by_number
  refine ⟨⟨rfl, hwhole, ?_⟩, ?_, ?_, hpoint "2.5" (by decide)⟩
  · exact (hliteral (hundredths .none 2500) (by decide) rfl).1 25 (by decide) hwhole
  · refine (hliteral (hundredths .none 50) (by decide) rfl).2.2.1 ?_ ?_ ?_
    · rw [hhalf]
      norm_num
    · rw [hhalf]
      norm_num
    · intro k hk
      rw [hhalf, div_eq_iff (by norm_num)] at hk
      have hodd : (1 : ℤ) = k * 2 := by exact_mod_cast hk
      omega
  · refine (hliteral (hundredths .minus 100) (by decide) rfl).2.1 ?_ (Or.inl ?_)
    · rw [hminus]
      norm_num
    · rw [hminus]
      norm_num

end AmountField.Native
