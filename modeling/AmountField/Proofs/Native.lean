/-
A native field holds a number of drops up to 10 ^ 17, and its text is that number.

The range of a native amount is tested by comparing decimals.  `inRange_iff` says what the test
means for the value: it lies between a millionth of a drop and 10 ^ 17 drops.  So whatever the
encoder puts into a field is at most 10 ^ 17, which is below 2 ^ 62, and no more than the sign bit
stands above it.

The text of such a number has no sign, no point and no exponent, and it is read as itself.
-/
import AmountField.Native
import AmountField.Proofs.Decimal.Plain
import AmountField.Proofs.Decimal.Value
import AmountField.Proofs.Results
import AmountField.Proofs.Words

namespace AmountField.Native

open Decimal (Plain)

/-! ### The range -/

/-- A number in the range of a nonzero native amount. -/
def InRange (v : ℚ) : Prop := (10 : ℚ) ^ (-6 : ℤ) ≤ v ∧ v ≤ 10 ^ 17

theorem inRange_iff {d : Decimal} : inRange d = true ↔ InRange d.value := by
  have hleast : ((1 : ℕ) : ℚ) ≤ d.value * leastReciprocal ↔ (10 : ℚ) ^ (-6 : ℤ) ≤ d.value := by
    norm_num [leastReciprocal, div_le_iff₀]
  have hgreatest : (maxDrops : ℚ) = 10 ^ 17 := by norm_num [maxDrops]
  rw [inRange, Bool.and_eq_true, Bool.not_eq_true', Bool.not_eq_true', ← Bool.not_eq_true,
    ← Bool.not_eq_true, Decimal.lt_iff, Decimal.lt_iff, Decimal.value_times, Decimal.value_ofNat,
    Decimal.value_ofNat, not_lt, not_lt, hleast, hgreatest, InRange]

/-- A number that a native amount may have. -/
def Admissible (v : ℚ) : Prop := v = 0 ∨ InRange v

theorem accepts_iff {d : Decimal} : Accepts d ↔ Admissible d.value := by
  rw [Accepts, Admissible, Bool.or_eq_true, inRange_iff, Decimal.isZero, decide_eq_true_eq,
    Decimal.value_eq_zero_iff]

theorem admissible_intCast_iff {k : ℤ} : Admissible k ↔ 0 ≤ k ∧ k ≤ 10 ^ 17 := by
  rw [Admissible, InRange]
  refine ⟨?_, ?_⟩
  · intro h
    rcases h with hzero | ⟨hl, hu⟩
    · have hk : k = 0 := by exact_mod_cast hzero
      rw [hk]
      decide
    · have hnonneg : (0 : ℚ) ≤ k := le_trans (ten_zpow_pos _).le hl
      exact ⟨by exact_mod_cast hnonneg, by exact_mod_cast hu⟩
  · intro h
    obtain ⟨hl, hu⟩ := h
    rcases lt_or_eq_of_le hl with hpos | hzero
    · have hone : (1 : ℚ) ≤ k := by exact_mod_cast hpos
      refine Or.inr ⟨?_, by exact_mod_cast hu⟩
      exact le_trans (zpow_le_one_of_nonpos₀ (by norm_num) (by decide)) hone
    · exact Or.inl (by rw [← hzero, Int.cast_zero])

theorem bounds_of_accepts {d : Decimal} {k : Int} (h : Accepts d) (hk : d.whole? = some k) :
    0 ≤ k ∧ k ≤ 10 ^ 17 := by
  rw [accepts_iff, Decimal.whole?_eq_some_iff.mp hk] at h
  exact admissible_intCast_iff.mp h

/-! ### The tests -/

theorem verify_eq_ok_iff {text : String} {d : Decimal} :
    verify text = .ok d ↔
      hasPoint text = false ∧ Decimal.Reading.ofText text = .ok (.exact d) ∧ Accepts d := by
  rcases verify_cases text with
    ⟨hpoint, hv⟩ | ⟨hpoint, ⟨_, hread, hv⟩ | ⟨d', hread, haccepts, hv⟩ | ⟨_, hread, hout, hv⟩⟩
  · simp [hpoint, hv]
  · simp [hread, hv]
  · rw [hv, hread]
    refine ⟨?_, ?_⟩
    · intro h
      cases h
      exact ⟨hpoint, rfl, haccepts⟩
    · intro h
      obtain ⟨-, hr, -⟩ := h
      cases hr
      rfl
  · rw [hv, hread]
    refine ⟨nofun, ?_⟩
    intro h
    obtain ⟨-, hr, haccepts⟩ := h
    exact absurd haccepts (hout d (Except.ok.inj hr))

theorem verify_of_reading {text : String} {r : Decimal.Reading} (hpoint : hasPoint text = false)
    (hread : Decimal.Reading.ofText text = .ok r) (h : ∀ d, r = .exact d → ¬ Accepts d) :
    verify text = .error (.nativeRange text) := by
  rcases verify_cases text with
    ⟨hpoint', -⟩ | ⟨-, ⟨_, hread', -⟩ | ⟨d, hread', haccepts, -⟩ | ⟨_, -, -, hv⟩⟩
  · rw [hpoint] at hpoint'
    cases hpoint'
  · cases hread.symm.trans hread'
  · exact absurd haccepts (h d (Except.ok.inj (hread.symm.trans hread')))
  · exact hv

/-- What is accepted fits in 64 bits, so only its wholeness is left to test. -/
theorem drops_of_accepts {d : Decimal} (h : Accepts d) (text : String) :
    drops text d = match d.whole? with
      | none => .error (.fractionalDrops text)
      | some k => .ok (UInt64.ofNat k.toNat) := by
  unfold drops
  cases hwhole : d.whole? with
  | none => rfl
  | some k =>
      obtain ⟨hl, hu⟩ := bounds_of_accepts h hwhole
      have hsize : (UInt64.size : Int) = 2 ^ 64 := rfl
      simp only
      rw [if_neg (by omega), if_neg (by omega)]

theorem encode_of_drops {text : String} {d : Decimal} {n : UInt64} (hverify : verify text = .ok d)
    (hdrops : drops text d = .ok n) :
    encode text = .ok (ofDrops n (lt_of_drops (accepts_of_verify hverify) hdrops)) := by
  unfold encode
  split
  · rename_i cause hcause
    cases hcause.symm.trans hverify
  · rename_i d' hd
    cases hd.symm.trans hverify
    split
    · rename_i cause hcause
      cases hcause.symm.trans hdrops
    · rename_i n' hn
      cases hn.symm.trans hdrops
      rfl

theorem encode_eq_error_iff {text : String} {cause : Error} :
    encode text = .error cause ↔ verify text = .error cause ∨
      ∃ d, verify text = .ok d ∧ drops text d = .error cause := by
  unfold encode
  split
  · simp_all
  · split <;> simp_all

/-- What is encoded is the whole number of what passes the tests. -/
theorem encode_eq_ok_iff {text : String} {field : NativeField} :
    encode text = .ok field ↔ ∃ d k, verify text = .ok d ∧ d.whole? = some k ∧
      ∃ h, field = ofDrops (UInt64.ofNat k.toNat) h := by
  refine ⟨?_, ?_⟩
  · intro h
    cases hverify : verify text with
    | error cause =>
        cases h.symm.trans (encode_eq_error_iff.mpr (Or.inl hverify))
    | ok d =>
        have hdrops := drops_of_accepts (accepts_of_verify hverify) text
        cases hwhole : d.whole? with
        | none =>
            rw [hwhole] at hdrops
            cases h.symm.trans (encode_eq_error_iff.mpr (Or.inr ⟨d, hverify, hdrops⟩))
        | some k =>
            rw [hwhole] at hdrops
            have hencode := h.symm.trans (encode_of_drops hverify hdrops)
            exact ⟨d, k, rfl, hwhole, _, Except.ok.inj hencode⟩
  · intro hparts
    obtain ⟨d, k, hverify, hwhole, hlt, rfl⟩ := hparts
    have hdrops : drops text d = .ok (UInt64.ofNat k.toNat) := by
      rw [drops_of_accepts (accepts_of_verify hverify), hwhole]
    exact encode_of_drops hverify hdrops

/-! ### The field -/

theorem ofNat_lt_signBit {n : Nat} (h : n < 2 ^ 62) : UInt64.ofNat n < ValueField.signBit := by
  rw [UInt64.lt_iff_toNat_lt, UInt64.toNat_ofNat']
  exact lt_of_le_of_lt (Nat.mod_le _ _) h

theorem ofNat_lt_signBit_of_le {n : Nat} (h : n ≤ 10 ^ 17) :
    UInt64.ofNat n < ValueField.signBit :=
  ofNat_lt_signBit (by omega)

/-- What the encoder puts into a field is a number of drops up to 10 ^ 17. -/
theorem ofDrops_of_encode {text : String} {field : NativeField} (h : encode text = .ok field) :
    ∃ n ≤ 10 ^ 17, ∃ hlt, field = ofDrops (UInt64.ofNat n) hlt := by
  obtain ⟨d, k, hverify, hwhole, hlt, rfl⟩ := encode_eq_ok_iff.mp h
  obtain ⟨hl, hu⟩ := bounds_of_accepts (accepts_of_verify hverify) hwhole
  exact ⟨k.toNat, by omega, hlt, rfl⟩

theorem toNat_and_dropsMask (v : UInt64) : (v &&& dropsMask).toNat = v.toNat % 2 ^ 62 :=
  Word.toNat_and_mask (by decide)

theorem toNat_ofDrops {n : Nat} (h : n < 2 ^ 62) :
    (ofDrops (UInt64.ofNat n) (ofNat_lt_signBit h)).word.toNat = 2 ^ 62 + n := by
  have hdrops : (UInt64.ofNat n).toNat = n := by
    rw [UInt64.toNat_ofNat']
    omega
  have hor := Word.toNat_or_of_lt (v := ValueField.signBit) (n := 62) (by decide)
    (lt_of_eq_of_lt hdrops h)
  rw [ofDrops, hor, hdrops]
  rfl

theorem dropsOfWord_ofDrops {n : Nat} (h : n < 2 ^ 62) :
    dropsOfWord (ofDrops (UInt64.ofNat n) (ofNat_lt_signBit h)).word = n := by
  rw [dropsOfWord, toNat_and_dropsMask, toNat_ofDrops h]
  omega

/-- The digits of a number, as a literal. -/
def numeral (n : Nat) : Plain where
  sign := .none
  whole := Nat.toDigits 10 n
  fraction := none
  exponent := none
  ne_nil := by simp [Nat.toDigits_ne_nil]
  isDigits := by
    intro c hc
    rw [Option.getD_none, List.append_nil] at hc
    exact Digits.isDigit_of_mem_toDigits hc

theorem numeral_chars (n : Nat) : (numeral n).chars = Nat.toDigits 10 n := by
  simp [Plain.chars, Plain.body, Plain.tail, numeral, Decimal.Sign.chars]

theorem numeral_text (n : Nat) : (numeral n).text = toString n := by
  rw [Nat.toString_eq_ofList_toDigits, Plain.text, numeral_chars]

theorem numeral_reading (n : Nat) : (numeral n).reading = .exact ⟨n, 0⟩ := by
  have hcoefficient : (numeral n).coefficient = n := by
    simp [Plain.coefficient, Plain.digits, numeral, Decimal.Sign.apply, Decimal.Sign.isMinus]
  have hscale : ((numeral n).places : Int) - (numeral n).power = 0 := rfl
  unfold Plain.reading
  simp only [hscale, hcoefficient]
  rfl

theorem short_numeral {n : Nat} (h : n < 2 ^ 62) : (numeral n).Short := by
  have hlength : (Nat.toDigits 10 n).length ≤ 19 :=
    (Nat.length_toDigits_le_iff (by decide) (by decide)).mpr (by omega)
  apply Plain.short_of_length_chars
  rw [numeral_chars]
  omega

/-- **A number of drops is encoded from its digits.** -/
theorem encode_toString {n : Nat} (h : n ≤ 10 ^ 17) :
    encode (toString n) = .ok (ofDrops (UInt64.ofNat n) (ofNat_lt_signBit_of_le h)) := by
  have hread : Decimal.Reading.ofText (toString n) = .ok (.exact ⟨n, 0⟩) := by
    rw [← numeral_text, Plain.ofText_plain (short_numeral (by omega)), numeral_reading]
  have hpoint : hasPoint (toString n) = false := by
    rw [hasPoint, Nat.toString_eq_ofList_toDigits, String.toList_ofList, List.contains_eq_mem,
      decide_eq_false_iff_not]
    intro hmem
    exact ne_of_isDigit (Digits.isDigit_of_mem_toDigits hmem) (by decide) rfl
  have hvalue : Decimal.value ⟨n, 0⟩ = (n : ℤ) := by simp [Decimal.value]
  have haccepts : Accepts ⟨n, 0⟩ := by
    rw [accepts_iff, hvalue]
    exact admissible_intCast_iff.mpr ⟨by omega, by omega⟩
  have hwhole : Decimal.whole? ⟨n, 0⟩ = some (n : ℤ) := Decimal.whole?_eq_some_iff.mpr hvalue
  have hverify : verify (toString n) = .ok ⟨n, 0⟩ := verify_eq_ok_iff.mpr ⟨hpoint, hread, haccepts⟩
  exact encode_eq_ok_iff.mpr ⟨⟨n, 0⟩, n, hverify, hwhole, _, rfl⟩

/-- **A field that was encoded is decoded to a text that is encoded to it again.** -/
theorem encode_decode {text : String} {field : NativeField} (h : encode text = .ok field) :
    encode (decode field.word) = .ok field := by
  obtain ⟨n, hn, hlt, rfl⟩ := ofDrops_of_encode h
  rw [decode, dropsOfWord_ofDrops (by omega), encode_toString hn]

end AmountField.Native
