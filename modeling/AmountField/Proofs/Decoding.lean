/-
Where decoding fails.

Off the bytes, decoding is a chain of reads: the first byte tells the kind, and then come the value,
the currency and the issuer, each of which may find too few bytes.  `textAt` is that chain.  The
bytes of an amount are its frame, so no read of it runs out, and `result_textAt` says that the
chain gives what decoding gives.

Two tests are left.  A field has the leading bit, so the value is refused for nothing but its
mantissa and its exponent, and `toText_issued_cases` is what comes of that: a value outside the
window is the first failure, a currency without a code the second, and there is no third.
-/
import AmountField.Proofs.Currency.Spelling
import AmountField.Proofs.Kinds
import AmountField.Proofs.Narrowing

namespace AmountField

open Issued (Canonical Window)

/-! ### Values -/

theorem IssuedField.and_leadingBit_ne_zero (field : IssuedField) :
    field.word &&& ValueField.leadingBit ≠ 0 := by
  have hset := UInt64.le_iff_toNat_le.mp field.leading_set
  rw [show ValueField.leadingBit.toNat = 2 ^ 63 from rfl] at hset
  have hlt : field.word.toNat < 2 ^ 64 := field.word.toNat_lt
  rw [Ne, Word.and_bit_eq_zero_iff (n := 63) rfl]
  omega

namespace Issued

/-- Whether a window finds no value in a word: it is not the field of zero, and its mantissa is not
of sixteen digits or its exponent is outside the bounds. -/
def Window.Refuses (w : Window) (word : UInt64) : Prop :=
  word ≠ 0x8000000000000000 ∧
    (¬ (10 ^ 15 ≤ word.toNat % 2 ^ 54 ∧ word.toNat % 2 ^ 54 ≤ 10 ^ 16 - 1) ∨
      ¬ (w.minExponent ≤ (word.toNat / 2 ^ 54 % 2 ^ 8 : Nat) - 97 ∧
        (word.toNat / 2 ^ 54 % 2 ^ 8 : Nat) - 97 ≤ w.maxExponent))

instance (w : Window) : DecidablePred w.Refuses := fun _ => inferInstanceAs (Decidable (_ ∧ _))

variable {w : Window} {field : IssuedField}

theorem Window.refuses_iff {word : UInt64} :
    w.Refuses word ↔ word ≠ zeroField.word ∧
      ¬ w.contains (word &&& mantissaMask) (exponentOfWord word) = true := by
  have hmantissa : word.toNat % 2 ^ 54 < 10 ^ 16 ↔ word.toNat % 2 ^ 54 ≤ 10 ^ 16 - 1 := by omega
  rw [Window.contains_iff, toNat_mantissaOfWord, toInt_exponentOfWord, hmantissa, not_and_or]
  rfl

/-- The error of a field in which a window finds no value. -/
def refusal (field : IssuedField) : Error :=
  .uncanonicalField field.word (field.word &&& mantissaMask) (exponentOfWord field.word)

/-- **A field is refused for its mantissa or its exponent, or it is read as a value.** -/
theorem Canonical.ofBits_cases (w : Window) (field : IssuedField) :
    (w.Refuses field.word ∧ ofBits w field.word = .error (refusal field)) ∨
    (¬ w.Refuses field.word ∧ ∃ c, ofBits w field.word = .ok c) := by
  rw [Window.refuses_iff]
  unfold ofBits
  by_cases hzero : field.word = zeroField.word
  · rw [if_pos hzero]
    exact Or.inr ⟨fun h => h.1 hzero, _, rfl⟩
  · rw [if_neg hzero, if_neg field.and_leadingBit_ne_zero]
    by_cases hin : w.contains (field.word &&& mantissaMask) (exponentOfWord field.word) = true
    · exact Or.inr ⟨fun h => h.2 hin, _, if_pos hin⟩
    · exact Or.inl ⟨⟨hzero, hin⟩, if_neg hin⟩

end Issued

namespace Amount

open Issued (refusal)

/-! ### Off the bytes -/

/-- Reads a value field and tests it. -/
def valueAt (w : Window) : Cursor.Reader Canonical := do
  MonadExcept.ofExcept (Canonical.ofBits w (← Cursor.readWord))

/-- Reads the texts of an amount, each part tested before the next is read. -/
def textAt (w : Window) : Cursor.Reader AmountText := do
  if ValueField.leadsIssued (← Cursor.peek) then
    let value ← valueAt w
    let currency ← Wire.read none
    let issuer ← Wire.read none
    let code ← MonadExcept.ofExcept (Currency.toCode currency)
    return .issued value.render code (Account.toAddress issuer)
  else
    return .native (Native.decode (← Cursor.readWord))

/-- Reads the canonical value of an amount; a native amount has none. -/
def issuedValueAt : Cursor.Reader (Option Canonical) := do
  if ValueField.leadsIssued (← Cursor.peek) then return some (← valueAt .full) else return none

section

variable {w : Window} {a : Amount} {c c' : Cursor}

theorem peek_of_takes (h : c.Takes a.toBytes c') :
    ∃ first, Cursor.peek c = .ok first c ∧ ValueField.leadsIssued first = !a.isNative := by
  obtain ⟨first, more, hbytes⟩ := a.exists_toBytes_eq_cons
  have hrest : c.rest = first :: (more ++ c'.rest) := by
    rw [h.rest_eq, hbytes, List.cons_append]
  exact ⟨first, Cursor.peek_of_cons hrest, leadsIssued_of_toBytes hbytes⟩

theorem valueAt_of_takes {word : UInt64} (h : c.Takes (Word.toBytes word) c') :
    valueAt w c = MonadExcept.ofExcept (m := Cursor.Reader) (Canonical.ofBits w word) c' :=
  Cursor.Reader.bind_of_ok (Cursor.readWord_of_takes h)

/-- **Reading the parts of an amount off its bytes gives what decoding gives.** -/
theorem result_textAt (h : c.Takes a.toBytes c') : (textAt w).result c = a.toText w := by
  obtain ⟨first, hpeek, hlead⟩ := peek_of_takes h
  rw [Cursor.Reader.result, textAt, Cursor.Reader.bind_of_ok hpeek]
  cases a with
  | native field =>
      have hclear : ValueField.leadsIssued first = false := hlead
      have hword : Cursor.readWord c = .ok field.word c' := Cursor.readWord_of_takes h
      rw [hclear, if_neg Bool.false_ne_true, Cursor.Reader.bind_of_ok hword]
      rfl
  | issued field currency issuer =>
      obtain ⟨c₂, hfront, hissuer⟩ := h.split
      obtain ⟨c₁, hfield, hcurrency⟩ := hfront.split
      have hset : ValueField.leadsIssued first = true := hlead
      have hvalueAt := valueAt_of_takes (w := w) hfield
      rw [if_pos hset, toText]
      cases hvalue : Canonical.ofBits w field.word with
      | error cause =>
          rw [hvalue] at hvalueAt
          rw [Cursor.Reader.bind_of_error hvalueAt]
          rfl
      | ok value =>
          rw [hvalue] at hvalueAt
          rw [Cursor.Reader.bind_of_ok hvalueAt,
            Cursor.Reader.bind_of_ok (Currency.framed.read_eq none hcurrency),
            Cursor.Reader.bind_of_ok (Account.framed.read_eq none hissuer), ok_bind]
          cases currency.toCode <;> rfl

/-- Reading the value of an amount off its bytes gives its value. -/
theorem result_issuedValueAt (h : c.Takes a.toBytes c') :
    issuedValueAt.result c = a.issuedValue := by
  obtain ⟨first, hpeek, hlead⟩ := peek_of_takes h
  rw [Cursor.Reader.result, issuedValueAt, Cursor.Reader.bind_of_ok hpeek]
  cases a with
  | native field =>
      have hclear : ValueField.leadsIssued first = false := hlead
      rw [hclear]
      rfl
  | issued field currency issuer =>
      obtain ⟨c₂, hfront, -⟩ := h.split
      obtain ⟨c₁, hfield, -⟩ := hfront.split
      have hset : ValueField.leadsIssued first = true := hlead
      have hvalueAt := valueAt_of_takes (w := .full) hfield
      rw [if_pos hset, issuedValue]
      cases hvalue : Canonical.ofBits .full field.word with
      | error cause =>
          rw [hvalue] at hvalueAt
          rw [Cursor.Reader.bind_of_error hvalueAt]
          rfl
      | ok value =>
          rw [hvalue] at hvalueAt
          rw [Cursor.Reader.bind_of_ok hvalueAt]
          rfl

end

/-! ### The two tests -/

section

variable {w : Window} {a : Amount} {t : AmountText} {cause : Error}

/-- **Decoding an issued amount fails in its value, or else in its code, or it gives texts.** -/
theorem toText_issued_cases (w : Window) (field : IssuedField) (currency : Currency)
    (issuer : Account) :
    (w.Refuses field.word ∧ toText w (issued field currency issuer) = .error (refusal field)) ∨
    (¬ w.Refuses field.word ∧ currency = Currency.spelledNative ∧
      toText w (issued field currency issuer) = .error .disallowedCurrency) ∨
    (¬ w.Refuses field.word ∧ currency ≠ Currency.spelledNative ∧
      ∃ t, toText w (issued field currency issuer) = .ok t) := by
  simp only [toText]
  rcases Canonical.ofBits_cases w field with ⟨hrefuses, hvalue⟩ | ⟨hreads, c, hvalue⟩
  · rw [hvalue]
    exact Or.inl ⟨hrefuses, rfl⟩
  · rw [hvalue]
    by_cases hspelled : currency = Currency.spelledNative
    · subst hspelled
      exact Or.inr (Or.inl ⟨hreads, rfl, rfl⟩)
    · obtain ⟨code, hcode⟩ := Currency.exists_toCode hspelled
      rw [hcode]
      exact Or.inr (Or.inr ⟨hreads, hspelled, _, rfl⟩)

/-- What can be wrong with an amount: its value, or its code. -/
theorem cause_of_toText (h : a.toText w = .error cause) :
    (∃ field, cause = refusal field) ∨ cause = .disallowedCurrency := by
  cases a with
  | native field => cases h
  | issued field currency issuer =>
      rcases toText_issued_cases w field currency issuer with
        ⟨-, herror⟩ | ⟨-, -, herror⟩ | ⟨-, -, t, hok⟩
      · rw [herror] at h
        exact Or.inl ⟨field, (Except.error.inj h).symm⟩
      · rw [herror] at h
        exact Or.inr (Except.error.inj h).symm
      · rw [hok] at h
        cases h

theorem issuedValue_issued_cases (field : IssuedField) (currency : Currency) (issuer : Account) :
    (Window.full.Refuses field.word ∧
      issuedValue (issued field currency issuer) = .error (refusal field)) ∨
    (¬ Window.full.Refuses field.word ∧
      ∃ c, issuedValue (issued field currency issuer) = .ok (some c)) := by
  simp only [issuedValue]
  rcases Canonical.ofBits_cases .full field with ⟨hrefuses, hvalue⟩ | ⟨hreads, c, hvalue⟩
  · rw [hvalue]
    exact Or.inl ⟨hrefuses, rfl⟩
  · rw [hvalue]
    exact Or.inr ⟨hreads, c, rfl⟩

theorem cause_of_issuedValue (h : a.issuedValue = .error cause) :
    ∃ field, cause = refusal field := by
  cases a with
  | native field => cases h
  | issued field currency issuer =>
      rcases issuedValue_issued_cases field currency issuer with ⟨-, herror⟩ | ⟨-, c, hok⟩
      · rw [herror] at h
        exact ⟨field, (Except.error.inj h).symm⟩
      · rw [hok] at h
        cases h

theorem toText_issued_eq_error_iff {field : IssuedField} {currency : Currency} {issuer : Account} :
    (∃ cause, toText w (issued field currency issuer) = .error cause) ↔
      w.Refuses field.word ∨ currency = Currency.spelledNative := by
  rcases toText_issued_cases w field currency issuer with
    ⟨hrefuses, herror⟩ | ⟨-, hspelled, herror⟩ | ⟨hreads, hcode, t, hok⟩
  · exact iff_of_true ⟨_, herror⟩ (Or.inl hrefuses)
  · exact iff_of_true ⟨_, herror⟩ (Or.inr hspelled)
  · exact iff_of_false (by simp [hok]) (not_or.mpr ⟨hreads, hcode⟩)

theorem issuedValue_issued_eq_error_iff {field : IssuedField} {currency : Currency}
    {issuer : Account} :
    (∃ cause, issuedValue (issued field currency issuer) = .error cause) ↔
      Window.full.Refuses field.word := by
  rcases issuedValue_issued_cases field currency issuer with ⟨hrefuses, herror⟩ | ⟨hreads, c, hok⟩
  · exact iff_of_true ⟨_, herror⟩ hrefuses
  · exact iff_of_false (by simp [hok]) hreads

end

/-! ### All amounts -/

theorem currency_of_toBytes (field : IssuedField) (currency : Currency) (issuer : Account) :
    ((issued field currency issuer).toBytes.drop 8).take 20 = currency.block.bytes := by
  have hbytes : (issued field currency issuer).toBytes
      = Word.toBytes field.word ++ (currency.block.bytes ++ issuer.block.bytes) :=
    List.append_assoc _ _ _
  rw [hbytes, List.drop_left' (Word.length_toBytes _), List.take_left' currency.block.length_eq]

/--
**Decoding fails exactly where it should.**  Read part by part off its bytes, an amount is decoded
as it is as a whole.  A native amount is always decoded.  An amount of 48 bytes is not when its
first eight bytes are a field that the window refuses, or the twenty behind them spell the native
code out; its value alone is refused by the field alone.  Every failure is one of form, and none
says that bytes are missing or that the field is a native one.
-/
theorem decoding_fails_exactly :
    (∀ (w : Window) (a : Amount),
      (textAt w).result (Cursor.start a.toBytes) = a.toText w ∧
      issuedValueAt.result (Cursor.start a.toBytes) = a.issuedValue) ∧
    (∀ (w : Window) (a : Amount), a.isNative = true →
      (∃ t, a.toText w = .ok t) ∧ a.issuedValue = .ok none) ∧
    (∀ (w : Window) (a : Amount), a.toBytes.length = 48 →
      ((∃ cause, a.toText w = .error cause) ↔
        w.Refuses (Word.ofBytes (a.toBytes.take 8)) ∨
          (a.toBytes.drop 8).take 20
            = List.replicate 12 0 ++ octets "XRP" ++ List.replicate 5 0) ∧
      ((∃ cause, a.issuedValue = .error cause) ↔
        Window.full.Refuses (Word.ofBytes (a.toBytes.take 8)))) ∧
    (∀ (w : Window) (a : Amount) (cause : Error),
      a.toText w = .error cause ∨ a.issuedValue = .error cause →
        cause.kind = .invalidFormat ∧ ∀ word, cause ≠ .nativeField word) ∧
    (∀ (a : Amount) (cause : Error), a.toJson = .error cause ↔ a.toText .full = .error cause) := by
  refine ⟨?_, ?_, ?_, ?_, ?_⟩
  · intro w a
    obtain ⟨c', htakes, -⟩ := framed.exists_takes_start a []
    rw [List.append_nil] at htakes
    exact ⟨result_textAt htakes, result_issuedValueAt htakes⟩
  · intro w a hnative
    cases a with
    | native field => exact ⟨⟨_, rfl⟩, rfl⟩
    | issued field currency issuer => cases hnative
  · intro w a hlength
    cases a with
    | native field => cases hlength
    | issued field currency issuer =>
        rw [ofBytes_take_toBytes, currency_of_toBytes, ← Currency.eq_spelledNative_iff]
        exact ⟨toText_issued_eq_error_iff, issuedValue_issued_eq_error_iff⟩
  · intro w a cause h
    have hcause : (∃ field, cause = refusal field) ∨ cause = .disallowedCurrency := by
      rcases h with htext | hvalue
      · exact cause_of_toText htext
      · exact Or.inl (cause_of_issuedValue hvalue)
    rcases hcause with ⟨field, rfl⟩ | rfl
    · exact ⟨rfl, fun _ => nofun⟩
    · exact ⟨rfl, fun _ => nofun⟩
  · intro a cause
    unfold toJson
    cases a.toText .full <;> simp [Except.map]

/-- The account with the least identifier that is not zero. -/
def leastIssuer : Account := ⟨⟨List.replicate 18 0 ++ [0, 1], rfl⟩⟩

/-- An amount of one dollar and no canonical value: its mantissa has a digit too few. -/
def shortDollar : Amount :=
  .issued ⟨0xD480000000000001, by decide⟩ ⟨Currency.standardBlock 0x55 0x53 0x44⟩ leastIssuer

/-- A field with a mantissa of one digit is refused, in its amount as by itself, and one dollar is
decoded in the window of the format but not where its exponent is too small. -/
theorem decoding_fails_on_short_dollar :
    (∃ cause, shortDollar.toText .full = .error cause) ∧
      (∃ cause, shortDollar.issuedValue = .error cause) ∧
      (¬ ∃ cause, oneDollar.toText .full = .error cause) ∧
      (∃ cause, oneDollar.toText ⟨0, 80, by decide, by decide, by decide⟩ = .error cause) ∧
      (∃ t, hundredDrops.toText .full = .ok t) := by
  obtain ⟨-, hnative, hissued, -, -⟩ := decoding_fails_exactly
  have hshort := hissued .full shortDollar rfl
  exact ⟨hshort.1.mpr (Or.inl (by decide)), hshort.2.mpr (by decide),
    mt (hissued .full oneDollar rfl).1.mp (by decide),
    (hissued ⟨0, 80, by decide, by decide, by decide⟩ oneDollar rfl).1.mpr (Or.inl (by decide)),
    (hnative .full hundredDrops rfl).1⟩

end Amount

end AmountField
