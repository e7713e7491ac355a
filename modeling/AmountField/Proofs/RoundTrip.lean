/-
From bytes to texts and back.

An issued amount is three texts side by side, and each of them is read back as the part that it
was written from: the value by `encode_render`, the currency by `ofCode_of_toCode`, the issuer by
`ofAddress_toAddress`.  So decoding and encoding again is the identity wherever decoding succeeds.

In the other direction the question is where decoding succeeds.  A value that was encoded in a
window is a value of that window, an address can always be written, and a native field holds at
most 10 ^ 17 drops.  What is left is the code: the block that spells the native code out can be
given by its digits, and it is the one currency that has no code.
-/
import AmountField.Amount
import AmountField.Proofs.Account
import AmountField.Proofs.Currency
import AmountField.Proofs.Native
import AmountField.Proofs.Rendering

namespace AmountField

open Issued (Canonical Window)

theorem AmountText.ofJson_toJson (t : AmountText) : ofJson t.toJson = .ok t := by
  cases t with
  | native drops => rfl
  | issued value currency issuer => rfl

namespace Amount

/-! ### Three texts -/

theorem toText_issued {w : Window} {field : IssuedField} {currency : Currency} {issuer : Account}
    {v : AmountText} :
    toText w (issued field currency issuer) = .ok v ↔
      ∃ c code, Canonical.ofBits w field.word = .ok c ∧ currency.toCode = .ok code ∧
        v = .issued c.render code issuer.toAddress := by
  simp only [toText, bind_eq_ok_iff, pure_eq_ok_iff]
  refine ⟨?_, ?_⟩
  · intro hparts
    obtain ⟨c, hc, code, hcode, rfl⟩ := hparts
    exact ⟨c, code, hc, hcode, rfl⟩
  · intro hparts
    obtain ⟨c, code, hc, hcode, rfl⟩ := hparts
    exact ⟨c, hc, code, hcode, rfl⟩

theorem ofText_issued {w : Window} {value code address : String} {a : Amount} :
    ofText w (.issued value code address) = .ok a ↔
      ∃ field currency issuer, Issued.encode w value = .ok field ∧
        Currency.ofCode code = .ok currency ∧ Account.ofAddress address = .ok issuer ∧
        a = issued field currency issuer := by
  simp only [ofText, bind_eq_ok_iff, pure_eq_ok_iff]
  refine ⟨?_, ?_⟩
  · intro hparts
    obtain ⟨field, hfield, currency, hcurrency, issuer, hissuer, rfl⟩ := hparts
    exact ⟨field, currency, issuer, hfield, hcurrency, hissuer, rfl⟩
  · intro hparts
    obtain ⟨field, currency, issuer, hfield, hcurrency, hissuer, rfl⟩ := hparts
    exact ⟨field, hfield, currency, hcurrency, issuer, hissuer, rfl⟩

theorem ofText_native {w : Window} {drops : String} {a : Amount} :
    ofText w (.native drops) = .ok a ↔
      ∃ field, Native.encode drops = .ok field ∧ a = native field := by
  show (Native.encode drops).map native = .ok a ↔ _
  cases Native.encode drops with
  | error cause => simp [Except.map]
  | ok field => simp [Except.map, eq_comm]

/-! ### Decoding, then encoding -/

theorem ofText_of_toText_issued {w : Window} {field : IssuedField} {currency : Currency}
    {issuer : Account} {v : AmountText} (h : toText w (issued field currency issuer) = .ok v) :
    ofText w v = .ok (issued field currency issuer) := by
  obtain ⟨c, code, hc, hcode, rfl⟩ := toText_issued.mp h
  exact ofText_issued.mpr ⟨field, currency, issuer, Canonical.encode_render hc,
    Currency.ofCode_of_toCode hcode, Account.ofAddress_toAddress issuer, rfl⟩

/--
**Decoding an issued amount and encoding what was decoded gives the amount back**, in every
window that decodes it, from the texts as from their JSON value.
-/
theorem ofText_toText (a : Amount) (w : Window) (v : AmountText) (hissued : a.isNative = false)
    (h : a.toText w = .ok v) : ofText w v = .ok a ∧ ofJson w v.toJson = .ok a := by
  cases a with
  | native field => cases hissued
  | issued field currency issuer =>
      have hok := ofText_of_toText_issued h
      refine ⟨hok, ?_⟩
      rw [ofJson, AmountText.ofJson_toJson]
      exact hok

/-- One dollar of the account with number one. -/
def oneDollar : Amount :=
  .issued ⟨0xD4838D7EA4C68000, by decide⟩ ⟨Currency.standardBlock 0x55 0x53 0x44⟩
    ⟨⟨List.replicate 19 0 ++ [1], rfl⟩⟩

theorem toText_oneDollar :
    oneDollar.toText .full = .ok (.issued "1" "USD" "rrrrrrrrrrrrrrrrrrrrBZbvji") := by
  have hvalue : (Canonical.normalized false 1000000000000000 (-15)).render = "1" := by
    decide +kernel
  have haddress : Account.toAddress ⟨⟨List.replicate 19 0 ++ [1], rfl⟩⟩
      = "rrrrrrrrrrrrrrrrrrrrBZbvji" := by decide +kernel
  rw [← hvalue, ← haddress]
  rfl

/-- One dollar from its texts and from its JSON value. -/
theorem ofText_oneDollar :
    ofText .full (.issued "1" "USD" "rrrrrrrrrrrrrrrrrrrrBZbvji") = .ok oneDollar ∧
      ofJson .full (AmountText.toJson (.issued "1" "USD" "rrrrrrrrrrrrrrrrrrrrBZbvji"))
        = .ok oneDollar :=
  ofText_toText oneDollar .full _ rfl toText_oneDollar

/-! ### Encoding, then decoding -/

/-- Whether the currency of an amount has a code; a native amount needs none. -/
def HasCode : Amount → Prop
  | native _ => True
  | issued _ currency _ => currency ≠ Currency.spelledNative

instance : DecidablePred HasCode
  | native _ => .isTrue trivial
  | issued _ currency _ => inferInstanceAs (Decidable (currency ≠ Currency.spelledNative))

/--
**Whatever is encoded can be decoded, save for a currency without a code.**  The texts are of the
same kind, do not depend on the window and are encoded to the same amount again.  The one
currency without a code is the block that spells the native code out, and it is refused as such.
-/
theorem toText_of_ofText (w : Window) (v : AmountText) (a : Amount) (h : ofText w v = .ok a) :
    (a.HasCode → ∃ v', a.toText w = .ok v' ∧ v'.isNative = v.isNative ∧ a.toText .full = .ok v' ∧
      ofText w v' = .ok a) ∧
    (¬ a.HasCode → a.toText w = .error .disallowedCurrency ∧
      a.toText .full = .error .disallowedCurrency) := by
  cases v with
  | native drops =>
      obtain ⟨field, hfield, rfl⟩ := ofText_native.mp h
      refine ⟨fun _ => ⟨_, rfl, rfl, rfl, ?_⟩, fun hcode => absurd trivial hcode⟩
      exact ofText_native.mpr ⟨field, Native.encode_decode hfield, rfl⟩
  | issued value code address =>
      obtain ⟨field, currency, issuer, hfield, hcurrency, hissuer, rfl⟩ := ofText_issued.mp h
      obtain ⟨c, hc⟩ := Issued.exists_ofBits_of_encode hfield
      have hfull := Canonical.ofBits_full hc
      refine ⟨?_, ?_⟩
      · intro hcode
        obtain ⟨code', hcode'⟩ := Currency.exists_toCode hcode
        have htext : toText w (issued field currency issuer)
            = .ok (.issued c.render code' issuer.toAddress) :=
          toText_issued.mpr ⟨c, code', hc, hcode', rfl⟩
        exact ⟨_, htext, rfl, toText_issued.mpr ⟨c, code', hfull, hcode', rfl⟩,
          ofText_of_toText_issued htext⟩
      · intro hcode
        have heq : currency = Currency.spelledNative := not_not.mp hcode
        subst heq
        refine ⟨?_, ?_⟩
        · simp only [toText, hc]
          rfl
        · simp only [toText, hfull]
          rfl

/-- One dollar given by the digits of its currency and of its issuer is written by its code. -/
theorem toText_of_digits :
    ofText .full (.issued "1" "0000000000000000000000005553440000000000"
        "0000000000000000000000000000000000000001") = .ok oneDollar ∧
      ∃ v', oneDollar.toText .full = .ok v' ∧ v'.isNative = false ∧
        oneDollar.toText .full = .ok v' ∧ ofText .full v' = .ok oneDollar := by
  have hdigits : ofText .full (.issued "1" "0000000000000000000000005553440000000000"
      "0000000000000000000000000000000000000001") = .ok oneDollar := rfl
  exact ⟨hdigits, (toText_of_ofText _ _ _ hdigits).1 (by decide)⟩

/-- The native code spelled out as a standard code is encoded from its digits and has no text. -/
theorem no_text_of_spelledNative :
    ∃ a, ofText .full (.issued "1" "0000000000000000000000005852500000000000"
        "0000000000000000000000000000000000000001") = .ok a ∧
      ¬ ∃ v', a.toText .full = .ok v' := by
  refine ⟨.issued ⟨0xD4838D7EA4C68000, by decide⟩ Currency.spelledNative
    ⟨⟨List.replicate 19 0 ++ [1], rfl⟩⟩, rfl, ?_⟩
  intro hparts
  obtain ⟨v', h⟩ := hparts
  cases h

end Amount

end AmountField
