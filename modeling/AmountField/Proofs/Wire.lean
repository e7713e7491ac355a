/-
One whole field and nothing else.

There are two strict readers, one of a byte string and one of hexadecimal text.  Each reads one
value from the front and then insists on the end, and `readWhole` is what they have in common; they
differ in the error for what is left over and in nothing else.

What becomes of a byte string depends on how many bytes are asked for at its front and on how many
there are.  Of a form that tells its length there are three outcomes, `exists_readWhole`,
`readWhole_of_lt` and `readWhole_of_gt`, and the lengths tell them apart.  The front is read from
position zero, so a byte string of any length leaves room for it.  Digits are read as the bytes that
they spell, whatever the case of the letters.
-/
import AmountField.Proofs.Framing
import AmountField.Proofs.Hex

namespace AmountField

/-- The result is this error, and the error is of this class. -/
def RefusedAs {α : Type} (kind : Error.Kind) (cause : Error) (r : Except Error α) : Prop :=
  r = .error cause ∧ cause.kind = kind

namespace Wire

variable {α : Type} [Wire α] {need : List UInt8 → Nat} {bytes : List UInt8}

/-! ### All of a byte string -/

/-- A value is read from its bytes, unless there are more of them. -/
theorem Framed.readWhole_append (h : Framed α need) (surplus : Nat → Error) (a : α)
    (tail : List UInt8) :
    readWhole surplus (toBytes a ++ tail)
      = if tail = [] then .ok a else .error (surplus tail.length) := by
  obtain ⟨c, htakes, hrest⟩ := h.exists_takes_start a tail
  have hremaining : c.remaining = tail.length := by rw [← Cursor.length_rest, hrest]
  have hend : c.atEnd = true ↔ tail = [] := by
    rw [Cursor.atEnd_iff, hremaining, List.length_eq_zero_iff]
  unfold readWhole
  rw [h.read_eq none htakes]
  show (if c.atEnd = true then _ else _) = _
  by_cases htail : tail = []
  · rw [if_pos htail, if_pos (hend.mpr htail)]
  · rw [if_neg htail, if_neg (mt hend.mp htail), hremaining]

theorem Framed.exists_length_eq (h : Framed α need) (hle : need bytes ≤ bytes.length) :
    ∃ (a : α) (tail : List UInt8), bytes = toBytes a ++ tail ∧
      bytes.length = need bytes + tail.length := by
  obtain ⟨a, tail, hsplit⟩ := h.exists_front hle
  refine ⟨a, tail, hsplit, ?_⟩
  rw [hsplit, h.need_append, List.length_append]

theorem Framed.readWhole_toBytes (h : Framed α need) (surplus : Nat → Error) (a : α) :
    readWhole surplus (toBytes a) = .ok a := by
  have happend := h.readWhole_append surplus a []
  rwa [List.append_nil, if_pos rfl] at happend

theorem Framed.exists_readWhole (h : Framed α need) (surplus : Nat → Error)
    (hlength : bytes.length = need bytes) :
    ∃ a : α, toBytes a = bytes ∧ readWhole surplus bytes = .ok a := by
  obtain ⟨a, tail, hsplit, htail⟩ := h.exists_length_eq (Nat.le_of_eq hlength.symm)
  have hnil : tail = [] := List.eq_nil_of_length_eq_zero (by omega)
  rw [hnil, List.append_nil] at hsplit
  exact ⟨a, hsplit.symm, hsplit ▸ h.readWhole_toBytes surplus a⟩

theorem Framed.readWhole_of_lt (h : Framed α need) (surplus : Nat → Error)
    (hfew : bytes.length < need bytes) :
    (readWhole surplus bytes : Except Error α) = .error (.underrun (need bytes) bytes.length) := by
  have hread : (read none : Cursor.Reader α) (Cursor.start bytes)
      = .error (.underrun (need bytes) bytes.length) (Cursor.start bytes) :=
    h.read_short (c := Cursor.start bytes) none hfew
  unfold readWhole
  rw [hread]

theorem Framed.readWhole_of_gt (h : Framed α need) (surplus : Nat → Error)
    (hmore : need bytes < bytes.length) :
    (readWhole surplus bytes : Except Error α)
      = .error (surplus (bytes.length - need bytes)) := by
  obtain ⟨a, tail, hsplit, htail⟩ := h.exists_length_eq (Nat.le_of_lt hmore)
  have hne : tail ≠ [] := List.ne_nil_of_length_pos (by omega)
  have hleft : bytes.length - need bytes = tail.length := by omega
  rw [hleft]
  conv_lhs => rw [hsplit]
  rw [h.readWhole_append, if_neg hne]

/-- **Bytes are read as a value when they are its bytes.** -/
theorem Framed.readWhole_eq_ok_iff (h : Framed α need) {surplus : Nat → Error} {a : α} :
    readWhole surplus bytes = .ok a ↔ toBytes a = bytes := by
  refine ⟨?_, ?_⟩
  · intro hok
    rcases Nat.lt_trichotomy bytes.length (need bytes) with hfew | hlength | hmore
    · rw [h.readWhole_of_lt surplus hfew] at hok
      cases hok
    · obtain ⟨a', hbytes, hok'⟩ := h.exists_readWhole surplus hlength
      rw [hok'] at hok
      cases hok
      exact hbytes
    · rw [h.readWhole_of_gt surplus hmore] at hok
      cases hok
  · rintro rfl
    exact h.readWhole_toBytes surplus a

/-! ### Hexadecimal text -/

theorem ofHex_of_toUpper {text : String} (h : text.toUpper = Hex.encode bytes) :
    (ofHex text : Except Error α) = readWhole .trailingBytes bytes := by
  rw [ofHex, Hex.decode_octets_eq_ok_iff.mpr h]

theorem ofHex_of_not_text {text : String} (h : ¬ ∃ bytes, text.toUpper = Hex.encode bytes) :
    ∃ fault, (ofHex text : Except Error α) = .error (.malformedHex text fault) := by
  unfold ofHex
  cases hdecode : Hex.decode (octets text) with
  | error fault => exact ⟨fault, rfl⟩
  | ok bytes => exact absurd ⟨bytes, Hex.decode_octets_eq_ok_iff.mp hdecode⟩ h

/-- Hexadecimal text is one value and nothing else, or it is refused for what is wrong with it. -/
structure StrictHex (α : Type) [Wire α] (need : List UInt8 → Nat) : Prop where
  /-- A text is read as the value of which its capitals are the digits. -/
  ok_iff : ∀ (text : String) (a : α), ofHex text = .ok a ↔ text.toUpper = Hex.encode (toBytes a)
  /-- The bytes of a value are as many as are asked for at their front. -/
  length_toBytes : ∀ a : α, (toBytes a).length = need (toBytes a)
  /-- Digits of as many bytes as are asked for are those of a value. -/
  exists_ok : ∀ text bytes, text.toUpper = Hex.encode bytes → bytes.length = need bytes →
    ∃ a : α, toBytes a = bytes ∧ ofHex text = .ok a
  missing : ∀ text bytes, text.toUpper = Hex.encode bytes → bytes.length < need bytes →
    RefusedAs .bufferUnderrun (.underrun (need bytes) bytes.length)
      (ofHex text : Except Error α)
  surplus : ∀ text bytes, text.toUpper = Hex.encode bytes → need bytes < bytes.length →
    RefusedAs .invalidFormat (.trailingBytes (bytes.length - need bytes))
      (ofHex text : Except Error α)
  malformed : ∀ text, ¬ Hex.IsText text →
    ∃ fault, RefusedAs .invalidFormat (.malformedHex text fault) (ofHex text : Except Error α)
  ofHex_toHex : ∀ a : α, ofHex (toHex a) = .ok a

/-- **A form that tells its length is read strictly from its digits.** -/
theorem Framed.strictHex (h : Framed α need) : StrictHex α need where
  ok_iff := by
    intro text a
    refine ⟨?_, ?_⟩
    · intro hok
      by_cases htext : ∃ bytes, text.toUpper = Hex.encode bytes
      · obtain ⟨bytes, hbytes⟩ := htext
        rw [ofHex_of_toUpper hbytes, h.readWhole_eq_ok_iff] at hok
        rw [hbytes, hok]
      · obtain ⟨fault, herror⟩ := ofHex_of_not_text (α := α) htext
        rw [herror] at hok
        cases hok
    · intro htext
      rw [ofHex_of_toUpper htext]
      exact h.readWhole_toBytes _ a
  length_toBytes := h.length_toBytes
  exists_ok := by
    intro text bytes htext hlength
    rw [ofHex_of_toUpper htext]
    exact h.exists_readWhole _ hlength
  missing := by
    intro text bytes htext hfew
    rw [ofHex_of_toUpper htext]
    exact ⟨h.readWhole_of_lt _ hfew, rfl⟩
  surplus := by
    intro text bytes htext hmore
    rw [ofHex_of_toUpper htext]
    exact ⟨h.readWhole_of_gt _ hmore, rfl⟩
  malformed := by
    intro text htext
    obtain ⟨fault, herror⟩ := ofHex_of_not_text (α := α) (mt Hex.isText_iff.mpr htext)
    exact ⟨fault, herror, rfl⟩
  ofHex_toHex := by
    intro a
    have hdecode : Hex.decode (octets (toHex a)) = .ok (toBytes a) := Hex.decode_encode _
    rw [ofHex, hdecode]
    exact h.readWhole_toBytes _ a

end Wire

namespace Amount

/-- The bytes are eight without the leading bit, or 48 with it. -/
def IsFrame (bytes : List UInt8) : Prop :=
  ∃ first more, bytes = first :: more ∧
    ((bytes.length = 8 ∧ first &&& 0x80 = 0) ∨ (bytes.length = 48 ∧ first &&& 0x80 ≠ 0))

theorem isFrame_iff {bytes : List UInt8} : IsFrame bytes ↔ bytes.length = need bytes := by
  cases bytes with
  | nil => simp [IsFrame, need]
  | cons first more =>
      by_cases hclear : first &&& 0x80 = 0 <;> simp [IsFrame, need, hclear]

theorem ofBytes_eq_readWhole (bytes : List UInt8) :
    ofBytes bytes = Wire.readWhole .trailingAmountBytes bytes := rfl

/-- The two strict readers of an amount fail in the same class, or give the same amount. -/
theorem kind_ofHex {text : String} {bytes : List UInt8} (h : text.toUpper = Hex.encode bytes) :
    (Wire.ofHex text : Except Error Amount).mapError Error.kind
      = (ofBytes bytes).mapError Error.kind := by
  rw [Wire.ofHex_of_toUpper h, ofBytes_eq_readWhole]
  rcases Nat.lt_trichotomy bytes.length (need bytes) with hfew | hlength | hmore
  · rw [framed.readWhole_of_lt _ hfew, framed.readWhole_of_lt _ hfew]
  · obtain ⟨a, rfl, -⟩ := framed.exists_readWhole .trailingBytes hlength
    rw [framed.readWhole_toBytes, framed.readWhole_toBytes]
  · rw [framed.readWhole_of_gt _ hmore, framed.readWhole_of_gt _ hmore]
    rfl

/--
**The strict readers take one whole field and nothing else.**  A byte string is read as an amount
when it is the bytes of the amount, and it is the bytes of one exactly when it is eight bytes
without the leading bit or 48 with it; if there are fewer bytes than the first of them announces,
or none, they are too few, and if there are more, the form is wrong.  The digits of a byte string,
in either case, are read like the bytes, of an amount as of a currency or an account, any other
text has the wrong form, and what is written in digits is read back.
-/
theorem strict_readers :
    (∀ bytes : List UInt8,
      (∀ a, ofBytes bytes = .ok a ↔ a.toBytes = bytes ∧ IsFrame bytes) ∧
      (IsFrame bytes ↔ ∃ a, ofBytes bytes = .ok a) ∧
      (bytes.length < need bytes →
        RefusedAs .bufferUnderrun (.underrun (need bytes) bytes.length) (ofBytes bytes)) ∧
      (need bytes < bytes.length →
        RefusedAs .invalidFormat (.trailingAmountBytes (bytes.length - need bytes))
          (ofBytes bytes))) ∧
    Wire.StrictHex Amount need ∧
    Wire.StrictHex Currency (fun _ => 20) ∧
    Wire.StrictHex Account (fun _ => 20) ∧
    (∀ text bytes, text.toUpper = Hex.encode bytes →
      (Wire.ofHex text : Except Error Amount).mapError Error.kind
        = (ofBytes bytes).mapError Error.kind) := by
  refine ⟨?_, framed.strictHex, Currency.framed.strictHex, Account.framed.strictHex,
    fun _ _ => kind_ofHex⟩
  intro bytes
  have hok : ∀ a, ofBytes bytes = .ok a ↔ a.toBytes = bytes := fun a =>
    framed.readWhole_eq_ok_iff
  have hframe : ∀ a : Amount, a.toBytes = bytes → IsFrame bytes := by
    rintro a rfl
    exact isFrame_iff.mpr (framed.length_toBytes a)
  refine ⟨?_, ⟨?_, ?_⟩, ?_, ?_⟩
  · intro a
    rw [hok a]
    exact ⟨fun hbytes => ⟨hbytes, hframe a hbytes⟩, And.left⟩
  · intro h
    obtain ⟨a, -, ha⟩ := framed.exists_readWhole .trailingAmountBytes (isFrame_iff.mp h)
    exact ⟨a, ha⟩
  · intro h
    obtain ⟨a, ha⟩ := h
    exact hframe a ((hok a).mp ha)
  · intro hfew
    exact ⟨framed.readWhole_of_lt _ hfew, rfl⟩
  · intro hmore
    exact ⟨framed.readWhole_of_gt _ hmore, rfl⟩

/-- A hundred drops. -/
def hundredDrops : Amount := .native ⟨0x4000000000000064, by decide⟩

/-- A hundred drops are read from their bytes and not from one byte more or less, and from their
digits in lower case. -/
theorem strict_hundred_drops :
    ofBytes hundredDrops.toBytes = .ok hundredDrops ∧
      ofBytes (hundredDrops.toBytes.take 7) = .error (.underrun 8 7) ∧
      ofBytes (hundredDrops.toBytes ++ [0]) = .error (.trailingAmountBytes 1) ∧
      ofBytes [] = .error (.underrun 1 0) ∧
      (Wire.ofHex "d4" : Except Error Amount) = .error (.underrun 48 1) ∧
      (Wire.ofHex "40000000000000640a" : Except Error Amount) = .error (.trailingBytes 1) ∧
      (∃ fault, (Wire.ofHex "r" : Except Error Currency) = .error (.malformedHex "r" fault)) ∧
      (Wire.ofHex "4000000000000064" : Except Error Amount).mapError Error.kind
        = (ofBytes hundredDrops.toBytes).mapError Error.kind := by
  obtain ⟨hbytes, hamount, hcurrency, -, hagree⟩ := strict_readers
  obtain ⟨fault, hfault⟩ := hcurrency.malformed "r" fun h => absurd h.1 (by decide)
  exact ⟨((hbytes _).1 _).mpr ⟨rfl, _, _, rfl, by decide⟩, ((hbytes _).2.2.1 (by decide)).1,
    ((hbytes _).2.2.2 (by decide)).1, ((hbytes _).2.2.1 (by decide)).1,
    (hamount.missing "d4" [0xD4] (by decide +kernel) (by decide)).1,
    (hamount.surplus "40000000000000640a" [0x40, 0, 0, 0, 0, 0, 0, 0x64, 0x0A] (by decide +kernel)
      (by decide)).1, ⟨fault, hfault.1⟩, hagree _ _ (by decide +kernel)⟩

end Amount

end AmountField
