/-
What the sign bit says, and what it leaves out.

Bit 62 of the value field is set in an amount that is not negative, and each kind of amount has its
own reading of that.

A native amount has no sign.  Decoding keeps the 62 bits below and looks past this one, so every
number of drops has two fields; encoding always sets it, and takes numbers up to 10 ^ 17 only.
`encode_decode_cases` is what happens to the number of any native field, and a field comes back as
it was when its sign bit is set and its number is not too large.

An issued amount has a sign, and decoding reads it off the bit, except in zero.  Zero has one field,
the leading bit by itself.  It is not negative, and its sign bit is clear.  So the bit says of a
value that it is greater than zero (`signBit_ne_zero_iff`), where the value itself counts as
positive when it is not less.
-/
import AmountField.Proofs.Decoding
import AmountField.Proofs.Drops
import AmountField.Proofs.Retraction

namespace AmountField

open Issued (Canonical Window)

/-! ### Native fields -/

theorem NativeField.eq_iff {f g : NativeField} : f = g ↔ f.word = g.word := by
  cases f
  cases g
  rw [NativeField.mk.injEq]

namespace Native

variable {field : NativeField} {n : Nat}

theorem toNat_lt (field : NativeField) : field.word.toNat < 2 ^ 63 :=
  UInt64.lt_iff_toNat_lt.mp field.leading_clear

theorem dropsOfWord_lt (w : UInt64) : dropsOfWord w < 2 ^ 62 := by
  rw [dropsOfWord, toNat_and_dropsMask]
  exact Nat.mod_lt _ (by decide)

/-- Two fields hold one number when they differ in the sign bit at most. -/
theorem dropsOfWord_eq_iff {f g : NativeField} : dropsOfWord f.word = dropsOfWord g.word ↔
    ∀ i, i ≠ 62 → f.word.toNat.testBit i = g.word.toNat.testBit i := by
  rw [dropsOfWord, dropsOfWord, toNat_and_dropsMask, toNat_and_dropsMask, Word.mod_two_pow_eq_iff]
  refine ⟨?_, ?_⟩
  · intro hlow i hi
    rcases lt_or_gt_of_ne hi with hlt | hgt
    · exact hlow i hlt
    · -- above the sign bit a native field is clear
      have hpow : 2 ^ 63 ≤ 2 ^ i := Nat.pow_le_pow_right (by decide) hgt
      have hf := toNat_lt f
      have hg := toNat_lt g
      rw [Nat.testBit_lt_two_pow (by omega), Nat.testBit_lt_two_pow (by omega)]
  · intro h i hi
    exact h i (by omega)

/-- The field of the number that a field holds: the same with the sign bit set. -/
def withSignBit (field : NativeField) : NativeField :=
  ofDrops (UInt64.ofNat (dropsOfWord field.word)) (ofNat_lt_signBit (dropsOfWord_lt _))

theorem withSignBit_eq_iff : withSignBit field = field ↔ field.word.toNat.testBit 62 = true := by
  have hlt := toNat_lt field
  have hword : (withSignBit field).word.toNat = 2 ^ 62 + field.word.toNat % 2 ^ 62 := by
    rw [withSignBit, toNat_ofDrops (dropsOfWord_lt _), dropsOfWord, toNat_and_dropsMask]
  rw [NativeField.eq_iff, ← UInt64.toNat_inj, hword, Nat.testBit_eq_decide_div_mod_eq,
    decide_eq_true_eq]
  omega

/-! ### Numbers of drops as texts -/

/-- A text is the decimal numeral of a number: its digits, without a zero in front of them. -/
structure IsNumeral (text : String) (n : Nat) : Prop where
  ne_nil : text.toList ≠ []
  isDigits : ∀ c ∈ text.toList, c.isDigit = true
  spells : Nat.ofDigitChars 10 text.toList 0 = n
  leads : text.toList.head? = some '0' → text = "0"

theorem IsNumeral.unique {text : String} {m n : Nat} (hm : IsNumeral text m)
    (hn : IsNumeral text n) : m = n :=
  hm.spells.symm.trans hn.spells

theorem isNumeral_toString (n : Nat) : IsNumeral (toString n) n := by
  have hdigits : (toString n).toList = Nat.toDigits 10 n := by
    rw [Nat.toString_eq_ofList_toDigits, String.toList_ofList]
  refine ⟨?_, ?_, ?_, ?_⟩
  · rw [hdigits]
    exact Nat.toDigits_ne_nil
  · intro c hc
    rw [hdigits] at hc
    exact Digits.isDigit_of_mem_toDigits hc
  · rw [hdigits, Nat.ofDigitChars_ten_toDigits]
  · intro hhead
    rw [hdigits] at hhead
    rcases Nat.eq_zero_or_pos n with rfl | hpos
    · rfl
    · exact absurd hhead (Digits.head?_toDigits hpos)

theorem value_numeral (n : Nat) : (numeral n).value = (n : ℤ) := by
  have hvalue : (numeral n).value = (n : ℤ) * (10 : ℚ) ^ (0 : ℤ) :=
    value_of_digits (List.append_nil _) rfl
  rw [hvalue, zpow_zero, mul_one]

theorem encode_toString_of_gt (hl : 10 ^ 17 < n) (hu : n < 2 ^ 62) :
    encode (toString n) = .error (.nativeRange (toString n)) := by
  have hout : ¬ Admissible (numeral n).value := by
    rw [value_numeral, admissible_intCast_iff]
    omega
  rw [← numeral_text]
  rcases encode_plain (short_numeral hu) rfl with ⟨m, hm, hvalue, -⟩ | ⟨-, herror⟩ | ⟨hin, -, -⟩
  · rw [hvalue] at hout
    exact absurd (admissible_natCast hm) hout
  · exact herror
  · exact absurd hin hout

/-- **A number of drops is encoded below the sign bit, or it is too large for that.** -/
theorem encode_decode_cases (field : NativeField) :
    (dropsOfWord field.word ≤ 10 ^ 17 ∧ encode (decode field.word) = .ok (withSignBit field)) ∨
    (10 ^ 17 < dropsOfWord field.word ∧
      encode (decode field.word) = .error (.nativeRange (decode field.word))) := by
  rcases Nat.lt_or_ge (10 ^ 17) (dropsOfWord field.word) with hlt | hle
  · exact Or.inr ⟨hlt, encode_toString_of_gt hlt (dropsOfWord_lt _)⟩
  · exact Or.inl ⟨hle, encode_toString hle⟩

/-- A field comes back as it was when its sign bit is set and its number is not too large. -/
theorem encode_decode_iff : encode (decode field.word) = .ok field ↔
    field.word.toNat.testBit 62 = true ∧ dropsOfWord field.word ≤ 10 ^ 17 := by
  rw [← withSignBit_eq_iff]
  rcases encode_decode_cases field with ⟨hle, hok⟩ | ⟨hlt, herror⟩
  · rw [hok, Except.ok.injEq]
    exact (and_iff_left hle).symm
  · rw [herror]
    refine iff_of_false (by simp) ?_
    intro hparts
    omega

end Native

/-! ### Issued fields -/

namespace Issued

theorem Canonical.isPositive_iff {w : Window} {c : Canonical} (h : c.Within w) :
    c.isPositive = true ↔ 0 ≤ c.value := by
  cases c with
  | zero => simp [isPositive]
  | normalized negative m e =>
      have hmagnitude : 0 < |(normalized negative m e).value| :=
        abs_pos.mpr (Window.value_ne_zero negative h)
      rw [abs_value_normalized] at hmagnitude
      rw [value_normalized]
      cases negative with
      | false => simpa [isPositive] using hmagnitude.le
      | true => simpa [isPositive] using hmagnitude

/-- A value of a window is zero only as such: a mantissa of the window is not. -/
theorem Canonical.value_eq_zero_iff {w : Window} {c : Canonical} (h : c.Within w) :
    c.value = 0 ↔ c = .zero := by
  cases c with
  | zero => simp
  | normalized negative m e => simpa using Window.value_ne_zero negative h

/-- **The sign bit of a field is set when the value is greater than zero.** -/
theorem Canonical.signBit_ne_zero_iff {w : Window} {bits : UInt64} {c : Canonical}
    (h : ofBits w bits = .ok c) : bits &&& ValueField.signBit ≠ 0 ↔ 0 < c.value := by
  obtain ⟨hwithin, hbits⟩ := of_ofBits h
  cases c with
  | zero =>
      cases hbits
      exact iff_of_false (by decide) (by simp)
  | normalized negative m e =>
      have hfull := Window.contains_full hwithin
      simp only [toBits, toField, hfull, if_true] at hbits
      cases hbits
      have hne := Window.value_ne_zero negative hwithin
      rw [Ne, pack_and_signBit_eq_zero_iff negative hfull, lt_iff_le_and_ne, and_iff_left hne.symm,
        ← isPositive_iff hwithin]
      simp [isPositive]

end Issued

namespace Amount

variable {a : Amount} {c : Canonical}

/-- The sign is read off the first byte of the field, where the sign bit stands. -/
theorem isPositive_iff (a : Amount) : a.isPositive = true ↔ a.word &&& ValueField.signBit ≠ 0 := by
  cases a with
  | native field => exact ValueField.signOf_toBytes_iff field.word
  | issued field currency issuer => exact ValueField.signOf_toBytes_iff field.word

/-! ### Native amounts -/

theorem exists_native_of_length (h : a.toBytes.length = 8) :
    ∃ field, a = native field ∧ Word.ofBytes a.toBytes = field.word := by
  cases a with
  | native field => exact ⟨field, rfl, Word.ofBytes_toBytes _⟩
  | issued field currency issuer =>
      rw [length_toBytes] at h
      simp [isNative] at h

theorem toText_native_eq_iff {w : Window} {f g : NativeField} :
    toText w (native f) = toText w (native g) ↔
      ∀ i, i ≠ 62 → f.word.toNat.testBit i = g.word.toNat.testBit i := by
  rw [← Native.dropsOfWord_eq_iff]
  refine ⟨?_, ?_⟩
  · intro h
    have htext : toString (Native.dropsOfWord f.word) = toString (Native.dropsOfWord g.word) :=
      AmountText.native.inj (Except.ok.inj h)
    exact (Native.isNumeral_toString _).unique (htext ▸ Native.isNumeral_toString _)
  · intro h
    rw [toText, toText, Native.decode, Native.decode, h]

theorem ofText_native_eq_ok_iff {w : Window} {drops : String} {field : NativeField} :
    ofText w (.native drops) = .ok (native field) ↔ Native.encode drops = .ok field := by
  rw [ofText_native]
  simp

/--
**A native amount is decoded to its number of drops, and not every one is encoded again as it was.**
The number is that of the 62 low bits, spelled without zeros in front.  Encoding it sets the sign
bit above it, or fails for its range when it is greater than 10 ^ 17.  So the amounts that come back
as they were are those with the sign bit set and a number up to 10 ^ 17, and two amounts have one
number when they differ in the sign bit at most.
-/
theorem native_recoded :
    (∀ (v w : Window) (a : Amount) (n : ℕ), a.toBytes.length = 8 →
      n = (Word.ofBytes a.toBytes).toNat % 2 ^ 62 →
        (a.toText w = .ok (.native (toString n)) ∧ Native.IsNumeral (toString n) n) ∧
        (n ≤ 10 ^ 17 → ∃ b, ofText v (.native (toString n)) = .ok b ∧
          b.toBytes = Word.toBytes (UInt64.ofNat (2 ^ 62 + n))) ∧
        (10 ^ 17 < n → ∃ cause, ofText v (.native (toString n)) = .error cause ∧
          cause.kind = .outOfRange) ∧
        (ofText v (.native (toString n)) = .ok a ↔
          (Word.ofBytes a.toBytes).toNat.testBit 62 = true ∧ n ≤ 10 ^ 17)) ∧
    (∀ (w : Window) (a b : Amount), a.toBytes.length = 8 → b.toBytes.length = 8 →
      (a.toText w = b.toText w ↔ ∀ i, i ≠ 62 →
        (Word.ofBytes a.toBytes).toNat.testBit i = (Word.ofBytes b.toBytes).toNat.testBit i)) := by
  refine ⟨?_, ?_⟩
  · intro v w a n hlength hn
    obtain ⟨field, rfl, hword⟩ := exists_native_of_length hlength
    rw [hword] at hn ⊢
    have hdrops : Native.dropsOfWord field.word = n := by
      rw [Native.dropsOfWord, Native.toNat_and_dropsMask, hn]
    have hdecode : Native.decode field.word = toString n := by rw [Native.decode, hdrops]
    refine ⟨⟨?_, Native.isNumeral_toString n⟩, ?_, ?_, ?_⟩
    · rw [toText, hdecode]
    · intro hle
      refine ⟨_, ofText_native_eq_ok_iff.mpr (Native.encode_toString hle), ?_⟩
      rw [← Native.word_ofDrops (by omega)]
      rfl
    · intro hlt
      refine ⟨.nativeRange (toString n), ?_, rfl⟩
      rw [ofText, Native.encode_toString_of_gt hlt (by omega)]
      rfl
    · rw [ofText_native_eq_ok_iff, ← hdecode, Native.encode_decode_iff, hdrops]
  · intro w a b ha hb
    obtain ⟨f, rfl, hf⟩ := exists_native_of_length ha
    obtain ⟨g, rfl, hg⟩ := exists_native_of_length hb
    rw [hf, hg]
    exact toText_native_eq_iff

/-- A hundred drops, with the sign bit clear. -/
def unsignedDrops : Amount := .native ⟨100, by decide⟩

/-- A drop more than the encoder takes. -/
def excessDrops : Amount := .native ⟨0x416345785D8A0001, by decide⟩

/-- A hundred drops come back with the sign bit set, whether it was set before or not, and a drop
more than 10 ^ 17 does not come back. -/
theorem native_recoded_hundred :
    (hundredDrops.toText .full = .ok (.native (toString 100)) ∧
      ofText .full (.native (toString 100)) = .ok hundredDrops) ∧
    (unsignedDrops.toText .full = .ok (.native (toString 100)) ∧
      ofText .full (.native (toString 100)) ≠ .ok unsignedDrops) ∧
    (∀ i, i ≠ 62 → (Word.ofBytes hundredDrops.toBytes).toNat.testBit i
      = (Word.ofBytes unsignedDrops.toBytes).toNat.testBit i) ∧
    ∃ cause, ofText .full (.native (toString (10 ^ 17 + 1))) = .error cause ∧
      cause.kind = .outOfRange := by
  obtain ⟨hrecoded, hsame⟩ := native_recoded
  obtain ⟨⟨htext, -⟩, -, -, hback⟩ := hrecoded .full .full hundredDrops 100 rfl rfl
  obtain ⟨⟨huntext, -⟩, -, -, hunback⟩ := hrecoded .full .full unsignedDrops 100 rfl rfl
  obtain ⟨-, -, hexcess, -⟩ := hrecoded .full .full excessDrops (10 ^ 17 + 1) rfl rfl
  refine ⟨⟨htext, hback.mpr ⟨by decide, by decide⟩⟩, ⟨huntext, ?_⟩, ?_, hexcess (by decide)⟩
  · intro hok
    exact absurd (hunback.mp hok).1 (by decide)
  · exact (hsame .full hundredDrops unsignedDrops rfl rfl).mp (htext.trans huntext.symm)

/-! ### Issued amounts -/

theorem ofBits_of_issuedValue (h : a.issuedValue = .ok (some c)) :
    Canonical.ofBits .full a.word = .ok c := by
  cases a with
  | native field => cases h
  | issued field currency issuer =>
      obtain ⟨c', hvalue, hsome⟩ := map_eq_ok_iff.mp h
      cases hsome
      exact hvalue

/--
**The sign bit of an issued amount is set when its value is greater than zero**, and its value
counts as positive when it is not less.  The two agree on every value except zero, and that is the
one whose field has nothing but the leading bit.
-/
theorem sign_bit_by_value {a : Amount} {c : Canonical} (h : a.issuedValue = .ok (some c)) :
    ∃ d, c.readDecimal = .ok d ∧
      (c.isPositive = true ↔ 0 ≤ d.value) ∧
      (a.isPositive = true ↔ 0 < d.value) ∧
      (a.isPositive = true ↔ (Word.ofBytes (a.toBytes.take 8)).toNat.testBit 62 = true) ∧
      (a.isPositive = c.isPositive ↔ c ≠ .zero) ∧
      (c = .zero ↔ Word.ofBytes (a.toBytes.take 8) = 0x8000000000000000) := by
  have hbits := ofBits_of_issuedValue h
  obtain ⟨hwithin, hword⟩ := Canonical.of_ofBits hbits
  have hvalue := Canonical.isPositive_iff hwithin
  have hbit : a.isPositive = true ↔ 0 < c.value :=
    (isPositive_iff a).trans (Canonical.signBit_ne_zero_iff hbits)
  rw [ofBytes_take_toBytes]
  refine ⟨c.toDecimal, Canonical.readDecimal_eq c, hvalue, hbit, ?_, ?_, ?_⟩
  · rw [isPositive_iff, Word.and_bit_ne_zero_iff (n := 62) rfl]
  · rw [Bool.eq_iff_iff, hbit, hvalue, Ne, ← Canonical.value_eq_zero_iff hwithin]
    refine ⟨?_, ?_⟩
    · intro hagree hzero
      exact lt_irrefl _ (hzero ▸ hagree.mpr hzero.ge)
    · intro hne
      exact ⟨le_of_lt, fun hle => lt_of_le_of_ne hle (Ne.symm hne)⟩
  · refine ⟨?_, ?_⟩
    · intro hzero
      subst hzero
      exact (Except.ok.inj hword).symm
    · intro hfield
      rw [hfield] at hbits
      exact (Except.ok.inj hbits).symm

/-- No dollars: the field of zero. -/
def zeroDollars : Amount :=
  .issued ⟨0x8000000000000000, by decide⟩ ⟨Currency.standardBlock 0x55 0x53 0x44⟩ leastIssuer

/-- The sign bit of one dollar is set, and that of no dollars is not. -/
theorem sign_bit_of_dollars :
    (oneDollar.issuedValue = .ok (some (.normalized false 1000000000000000 (-15))) ∧
      ∃ d, (Canonical.normalized false 1000000000000000 (-15)).readDecimal = .ok d ∧
        oneDollar.isPositive = true ∧ 0 < d.value) ∧
    (zeroDollars.issuedValue = .ok (some .zero) ∧
      ∃ d, Canonical.zero.readDecimal = .ok d ∧
        zeroDollars.isPositive = false ∧ ¬ 0 < d.value ∧ 0 ≤ d.value) := by
  have hone : oneDollar.issuedValue = .ok (some (.normalized false 1000000000000000 (-15))) := rfl
  have hzero : zeroDollars.issuedValue = .ok (some .zero) := rfl
  obtain ⟨d, hd, -, hpositive, -⟩ := sign_bit_by_value hone
  obtain ⟨e, he, hnonneg, hbit, -⟩ := sign_bit_by_value hzero
  refine ⟨⟨hone, d, hd, rfl, hpositive.mp rfl⟩, hzero, e, he, rfl, ?_, hnonneg.mp rfl⟩
  intro hlt
  exact Bool.noConfusion (hbit.mpr hlt)

/-- No dollars are not negative, and their sign bit is clear. -/
theorem zero_dollars_signs_differ :
    zeroDollars.toBytes.length = 48 ∧ zeroDollars.issuedValue = .ok (some .zero) ∧
      Canonical.zero.readDecimal = .ok Decimal.zero ∧
      zeroDollars.isPositive = false ∧ Canonical.zero.isPositive = true :=
  ⟨rfl, rfl, rfl, rfl, rfl⟩

end Amount

end AmountField
