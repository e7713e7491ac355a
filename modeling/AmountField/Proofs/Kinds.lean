/-
The bytes of an amount, its kind and its texts agree, whatever the amount was built from.

There are three ways to an amount.  From texts, the kind is that of the texts, and the field is
computed: `word_of_encode` says that a number of drops is put into its field as it is, below a
sign bit that is always set.  From a cursor, from a byte string or from hexadecimal text, the bytes
are copied: whatever is read has exactly the bytes that it was read from.  Either way the first byte
tells the kind and the length, and decoding goes by the kind alone.
-/
import AmountField.Proofs.RoundTrip
import AmountField.Proofs.Wire

namespace AmountField

open Issued (Window)

/-! ### Native fields from texts -/

namespace Native

/-- The field of a text holds the whole number of drops that the text spells, and no more than
the sign bit above it. -/
theorem word_of_encode {text : String} {field : NativeField} (h : encode text = .ok field) :
    ∃ (d : Decimal) (n : Nat), verify text = .ok d ∧ d.whole? = some (n : Int) ∧ n ≤ 10 ^ 17 ∧
      field.word.toNat = 2 ^ 62 + n := by
  obtain ⟨d, k, hverify, hwhole, hlt, rfl⟩ := encode_eq_ok_iff.mp h
  obtain ⟨hl, hu⟩ := bounds_of_accepts (accepts_of_verify hverify) hwhole
  obtain ⟨n, rfl⟩ := Int.eq_ofNat_of_zero_le hl
  have hn : n ≤ 10 ^ 17 := by exact_mod_cast hu
  refine ⟨d, n, hverify, hwhole, hn, ?_⟩
  exact toNat_ofDrops (by omega)

theorem signOf_encode {text : String} {field : NativeField} (h : encode text = .ok field) :
    ValueField.signOf (Word.toBytes field.word) = true := by
  obtain ⟨-, n, -, -, hn, hword⟩ := word_of_encode h
  rw [ValueField.signOf_toBytes_iff, Ne, Word.and_bit_eq_zero_iff (n := 62) rfl, hword]
  omega

end Native

namespace Amount

/-! ### Bytes -/

/-- An amount is eight bytes without the leading bit if it is native, and 48 bytes with it if it
is not. -/
theorem frame (a : Amount) :
    ∃ first more, a.toBytes = first :: more ∧
      ((a.isNative = true ∧ a.toBytes.length = 8 ∧ first &&& 0x80 = 0) ∨
        (a.isNative = false ∧ a.toBytes.length = 48 ∧ first &&& 0x80 ≠ 0)) := by
  obtain ⟨first, more, hbytes⟩ := a.exists_toBytes_eq_cons
  have hlead := leadsIssued_of_toBytes hbytes
  have hlength := a.length_toBytes
  refine ⟨first, more, hbytes, ?_⟩
  unfold ValueField.leadsIssued at hlead
  cases hkind : a.isNative with
  | true =>
      rw [hkind] at hlead hlength
      exact Or.inl ⟨rfl, hlength, not_not.mp (of_decide_eq_false hlead)⟩
  | false =>
      rw [hkind] at hlead hlength
      exact Or.inr ⟨rfl, hlength, of_decide_eq_true hlead⟩

theorem ofBytes_take_toBytes (a : Amount) : Word.ofBytes (a.toBytes.take 8) = a.word := by
  cases a with
  | native field => exact Word.ofBytes_toBytes _
  | issued field currency issuer =>
      rw [toBytes, List.append_assoc, List.take_left' (Word.length_toBytes _), Word.ofBytes_toBytes]
      rfl

theorem decode_of_ofHex {text : String} {a : Amount} (h : Wire.ofHex text = .ok a) :
    Hex.decode (octets text) = .ok a.toBytes := by
  unfold Wire.ofHex at h
  cases hdecode : Hex.decode (octets text) with
  | error fault =>
      rw [hdecode] at h
      cases h
  | ok bytes =>
      rw [hdecode] at h
      exact congrArg Except.ok (framed.readWhole_eq_ok_iff.mp h).symm

/-! ### Texts -/

variable {w : Window} {a : Amount} {t : AmountText}

theorem kind_of_ofText (h : ofText w t = .ok a) :
    a.isNative = t.isNative ∧ (a.isNative = true → a.isPositive = true) := by
  cases t with
  | native drops =>
      obtain ⟨field, hfield, rfl⟩ := ofText_native.mp h
      exact ⟨rfl, fun _ => Native.signOf_encode hfield⟩
  | issued value code address =>
      obtain ⟨field, currency, issuer, -, -, -, rfl⟩ := ofText_issued.mp h
      exact ⟨rfl, fun hnative => Bool.noConfusion hnative⟩

theorem isNative_of_toText (h : a.toText w = .ok t) : t.isNative = a.isNative := by
  cases a with
  | native field =>
      cases h
      rfl
  | issued field currency issuer =>
      obtain ⟨c, code, -, -, rfl⟩ := toText_issued.mp h
      rfl

/--
**Bytes, kind and texts of an amount agree.**  The bytes are eight without the leading bit or 48
with it, and the amount is native in the first case and in no other.  From texts, and from their
JSON value, comes an amount of the kind of the texts; a native one is positive, and its bytes are
those of the number of drops with the sign bit above it.  From a cursor, from a byte string or
from hexadecimal text comes an amount that has the bytes it was read from, and a cursor over data
that its position can count then stands behind them.  And an amount that is decoded is decoded to
texts of its kind.
-/
theorem framed_by_kind (a : Amount) :
    (∃ first more, a.toBytes = first :: more ∧
      ((a.isNative = true ∧ a.toBytes.length = 8 ∧ first &&& 0x80 = 0) ∨
        (a.isNative = false ∧ a.toBytes.length = 48 ∧ first &&& 0x80 ≠ 0))) ∧
    (∀ w t, ofText w t = .ok a →
      a.isNative = t.isNative ∧ (a.isNative = true → a.isPositive = true)) ∧
    (∀ w drops, ofText w (.native drops) = .ok a →
      ∃ (d : Decimal) (n : Nat), Native.verify drops = .ok d ∧ d.whole? = some (n : Int) ∧
        n ≤ 10 ^ 17 ∧ a.toBytes = Word.toBytes (UInt64.ofNat (2 ^ 62 + n))) ∧
    (∀ w j, ofJson w j = .ok a → ∃ t, AmountText.ofJson j = .ok t ∧
      a.isNative = t.isNative ∧ (a.isNative = true → a.isPositive = true)) ∧
    (∀ hint c c', Wire.read hint c = .ok a c' →
      a.toBytes <+: c.rest ∧ (c.data.length < 2 ^ 64 → c.rest = a.toBytes ++ c'.rest)) ∧
    (∀ bytes, ofBytes bytes = .ok a → a.toBytes = bytes) ∧
    (∀ text, Wire.ofHex text = .ok a → Hex.decode (octets text) = .ok a.toBytes) ∧
    (∀ w t, a.toText w = .ok t → t.isNative = a.isNative) := by
  refine ⟨a.frame, fun w t h => kind_of_ofText h, ?_, ?_, ?_,
    fun bytes h => framed.readWhole_eq_ok_iff.mp h, fun text h => decode_of_ofHex h,
    fun w t h => isNative_of_toText h⟩
  · intro w drops h
    obtain ⟨field, hfield, rfl⟩ := ofText_native.mp h
    obtain ⟨d, n, hverify, hwhole, hn, hword⟩ := Native.word_of_encode hfield
    refine ⟨d, n, hverify, hwhole, hn, congrArg Word.toBytes ?_⟩
    rw [← UInt64.toNat_inj, hword, UInt64.toNat_ofNat']
    omega
  · intro w j h
    obtain ⟨t, ht, hof⟩ := bind_eq_ok_iff.mp h
    exact ⟨t, ht, kind_of_ofText hof⟩
  · intro hint c c' h
    exact ⟨prefix_of_read h, fun hdata => (takes_of_read hdata h).rest_eq⟩

/-- A hundred drops from a text and from hexadecimal text, and one dollar from its texts. -/
theorem framed_hundred_drops :
    ofText .full (.native "100") = .ok hundredDrops ∧ hundredDrops.isPositive = true ∧
      Wire.ofHex "4000000000000064" = .ok hundredDrops ∧
      Hex.decode (octets "4000000000000064") = .ok hundredDrops.toBytes ∧
      oneDollar.toText .full = .ok (.issued "1" "USD" "rrrrrrrrrrrrrrrrrrrrBZbvji") ∧
      (AmountText.issued "1" "USD" "rrrrrrrrrrrrrrrrrrrrBZbvji").isNative = oneDollar.isNative := by
  have htext : ofText .full (.native "100") = .ok hundredDrops := rfl
  have hhex : Wire.ofHex "4000000000000064" = .ok hundredDrops := rfl
  obtain ⟨-, hofText, -, -, -, -, hofHex, -⟩ := framed_by_kind hundredDrops
  obtain ⟨-, -, -, -, -, -, -, htoText⟩ := framed_by_kind oneDollar
  exact ⟨htext, (hofText _ _ htext).2 rfl, hhex, hofHex _ hhex, toText_oneDollar,
    htoText _ _ toText_oneDollar⟩

end Amount

end AmountField
