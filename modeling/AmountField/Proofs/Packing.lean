/-
The value field of an issued amount holds each canonical value exactly once.

`toNat_pack` says what number a packed field is.  The sign, the exponent and the mantissa
stand in bits that do not overlap as long as the mantissa is below 2 ^ 54 and the biased
exponent below 2 ^ 8, so the disjunctions of the packing are sums, and everything else is
division with remainder.  The other way round, `pack_parts` says that a word with the leading
bit is the field of the three parts that unpacking takes out of it, whatever they are.

The two meet in the window: what it admits is small enough to be packed, and it never admits
an exponent whose bits are all clear, so the field of zero is the field of nothing else.
-/
import AmountField.Issued.Packing
import AmountField.Proofs.Words
import Mathlib.Tactic.Tauto

namespace AmountField.Issued

/-! ### The parts of a word -/

theorem toNat_mantissaOfWord (v : UInt64) : (v &&& mantissaMask).toNat = v.toNat % 2 ^ 54 :=
  Word.toNat_and_mask (by decide)

theorem toInt_exponentOfWord (v : UInt64) :
    (exponentOfWord v).toInt = (v.toNat / 2 ^ 54 % 2 ^ 8 : Nat) - 97 := by
  have hlt : v.toNat / 2 ^ 54 % 2 ^ 8 < 2 ^ 8 := Nat.mod_lt _ (by decide)
  have hbyte : ((v >>> exponentShift) &&& exponentMask).toNat = v.toNat / 2 ^ 54 % 2 ^ 8 := by
    rw [Word.toNat_and_mask (n := 8) (by decide), UInt64.toNat_shiftRight]
    simp [exponentShift, Nat.shiftRight_eq_div_pow]
  have hword : ((v >>> exponentShift) &&& exponentMask).toUInt32.toNat
      = v.toNat / 2 ^ 54 % 2 ^ 8 := by
    rw [UInt64.toNat_toUInt32, hbyte]
    omega
  unfold exponentOfWord
  rw [Int32.toInt_sub, Word.toInt_toInt32 (by omega), hword,
    show exponentBias.toInt = 97 from rfl]
  apply Int.bmod_eq_of_le <;> omega

theorem toNat_exponentBits {e : Int32} (hl : -97 ≤ e.toInt) (hu : e.toInt ≤ 158) :
    (exponentBits e).toNat = (e.toInt + 97).toNat * 2 ^ 54 := by
  have hsum : (e + exponentBias).toInt = e.toInt + 97 := by
    rw [Int32.toInt_add, show exponentBias.toInt = 97 from rfl]
    apply Int.bmod_eq_of_le <;> omega
  have hnat : (e + exponentBias).toUInt32.toNat = (e.toInt + 97).toNat := by
    have := Word.toNat_toUInt32 (e := e + exponentBias) (by omega)
    omega
  unfold exponentBits
  rw [UInt64.toNat_shiftLeft, UInt32.toNat_toUInt64, hnat, Nat.shiftLeft_eq,
    show exponentShift.toNat % 64 = 54 from rfl]
  omega

/-- The sign bit as a number. -/
def signWeight (negative : Bool) : Nat := if negative then 0 else 1

theorem signWeight_le (negative : Bool) : signWeight negative ≤ 1 := by
  cases negative <;> decide

/-- The number that a packed field is, its four parts side by side. -/
theorem toNat_pack (negative : Bool) {m : UInt64} {e : Int32} (hm : m.toNat < 2 ^ 54)
    (hl : -97 ≤ e.toInt) (hu : e.toInt ≤ 158) :
    (pack negative m e).word.toNat
      = 2 ^ 63 + signWeight negative * 2 ^ 62 + (e.toInt + 97).toNat * 2 ^ 54 + m.toNat := by
  have hs := signWeight_le negative
  have hexp := toNat_exponentBits hl hu
  have hsign : (if negative then 0 else ValueField.signBit : UInt64).toNat
      = signWeight negative * 2 ^ 62 := by cases negative <;> rfl
  have htop : ((if negative then 0 else ValueField.signBit) ||| exponentBits e : UInt64).toNat
      = signWeight negative * 2 ^ 62 + (e.toInt + 97).toNat * 2 ^ 54 := by
    rw [Word.toNat_or_of_lt (n := 62) (by rw [hsign]; exact Dvd.intro_left _ rfl)
        (by rw [hexp]; omega),
      hsign, hexp]
  have hbody : ((if negative then 0 else ValueField.signBit) ||| exponentBits e ||| m).toNat
      = signWeight negative * 2 ^ 62 + (e.toInt + 97).toNat * 2 ^ 54 + m.toNat := by
    rw [Word.toNat_or_of_lt (n := 54) (by rw [htop]; omega) hm, htop]
  show (ValueField.leadingBit
    ||| ((if negative then 0 else ValueField.signBit) ||| exponentBits e ||| m)).toNat = _
  rw [Word.toNat_or_of_lt (n := 63) (by decide) (by rw [hbody]; omega), hbody]
  show 2 ^ 63 + _ = _
  omega

/-- Every word with the leading bit is made of the parts that are read off it. -/
theorem pack_parts {v : UInt64} (h : v &&& ValueField.leadingBit ≠ 0) :
    (pack (v &&& ValueField.signBit = 0) (v &&& mantissaMask) (exponentOfWord v)).word = v := by
  have hv : v.toNat < 2 ^ 64 := v.toNat_lt
  have hexp := toInt_exponentOfWord v
  have hmant := toNat_mantissaOfWord v
  have hlead : v.toNat / 2 ^ 63 % 2 = 1 := by
    rw [Ne, Word.and_bit_eq_zero_iff (n := 63) (by decide)] at h
    omega
  have hsign : signWeight (v &&& ValueField.signBit = 0) = v.toNat / 2 ^ 62 % 2 := by
    have hbit : v &&& ValueField.signBit = 0 ↔ v.toNat / 2 ^ 62 % 2 = 0 :=
      Word.and_bit_eq_zero_iff (by decide)
    unfold signWeight
    split <;> simp_all
  rw [← UInt64.toNat_inj, toNat_pack _ (by omega) (by omega) (by omega), hsign, hexp, hmant]
  omega

/-! ### The window of a field -/

theorem Window.contains_iff {w : Window} {m : UInt64} {e : Int32} :
    w.contains m e = true ↔ (10 ^ 15 ≤ m.toNat ∧ m.toNat < 10 ^ 16)
      ∧ (w.minExponent ≤ e.toInt ∧ e.toInt ≤ w.maxExponent) := by
  have hmin : minMantissa ≤ m ↔ 10 ^ 15 ≤ m.toNat := UInt64.le_iff_toNat_le
  have hmax : m ≤ maxMantissa ↔ m.toNat < 10 ^ 16 := by
    rw [UInt64.le_iff_toNat_le, show maxMantissa.toNat = 10 ^ 16 - 1 from rfl]
    omega
  simp only [Window.contains, Bool.and_eq_true, decide_eq_true_eq, hmin, hmax]
  tauto

theorem Window.full_contains_iff {m : UInt64} {e : Int32} :
    full.contains m e = true ↔ (10 ^ 15 ≤ m.toNat ∧ m.toNat < 10 ^ 16)
      ∧ (-96 ≤ e.toInt ∧ e.toInt ≤ 80) :=
  contains_iff

theorem Window.contains_full {w : Window} {m : UInt64} {e : Int32} (h : w.contains m e = true) :
    full.contains m e = true := by
  obtain ⟨hm, hl, hu⟩ := contains_iff.mp h
  have hleast := w.least_le
  have hgreatest := w.le_greatest
  exact full_contains_iff.mpr ⟨hm, by omega, by omega⟩

theorem toNat_pack_of_contains (negative : Bool) {m : UInt64} {e : Int32}
    (h : Window.full.contains m e = true) :
    (pack negative m e).word.toNat
      = 2 ^ 63 + signWeight negative * 2 ^ 62 + (e.toInt + 97).toNat * 2 ^ 54 + m.toNat := by
  obtain ⟨⟨-, hm⟩, hl, hu⟩ := Window.full_contains_iff.mp h
  exact toNat_pack negative (by omega) (by omega) (by omega)

/-- The sign bit is that of the value: no other part of a field reaches it. -/
theorem pack_and_signBit_eq_zero_iff (negative : Bool) {m : UInt64} {e : Int32}
    (h : Window.full.contains m e = true) :
    (pack negative m e).word &&& ValueField.signBit = 0 ↔ negative = true := by
  obtain ⟨⟨-, hm⟩, hl, hu⟩ := Window.full_contains_iff.mp h
  rw [Word.and_bit_eq_zero_iff (n := 62) (by decide), toNat_pack_of_contains negative h]
  cases negative with
  | false =>
      simp only [signWeight, Bool.false_eq_true, if_false, iff_false]
      omega
  | true =>
      simp only [signWeight, if_true, iff_true]
      omega

/-- Zero shares its field with no other value: a packed mantissa is never zero. -/
theorem pack_ne_zeroField (negative : Bool) {m : UInt64} {e : Int32}
    (h : Window.full.contains m e = true) : (pack negative m e).word ≠ zeroField.word := by
  intro heq
  have hpack := toNat_pack_of_contains negative h
  obtain ⟨⟨hm, -⟩, -⟩ := Window.full_contains_iff.mp h
  rw [heq, show zeroField.word.toNat = 2 ^ 63 from rfl] at hpack
  omega

namespace Canonical

/-! ### Packing and unpacking -/

theorem ofBits_pack {w : Window} (negative : Bool) {m : UInt64} {e : Int32}
    (h : w.contains m e = true) :
    ofBits w (pack negative m e).word = .ok (normalized negative m e) := by
  have hfull := Window.contains_full h
  obtain ⟨⟨-, hm⟩, hl, hu⟩ := Window.full_contains_iff.mp hfull
  have hs := signWeight_le negative
  have hpack := toNat_pack_of_contains negative hfull
  have hlead : (pack negative m e).word &&& ValueField.leadingBit ≠ 0 := by
    rw [Ne, Word.and_bit_eq_zero_iff (n := 63) (by decide), hpack]
    omega
  have hmant : (pack negative m e).word &&& mantissaMask = m := by
    rw [← UInt64.toNat_inj, toNat_mantissaOfWord, hpack]
    omega
  have hexp : exponentOfWord (pack negative m e).word = e := by
    rw [← Int32.toInt_inj, toInt_exponentOfWord, hpack]
    omega
  have hsign : decide ((pack negative m e).word &&& ValueField.signBit = 0) = negative := by
    rw [Bool.eq_iff_iff, decide_eq_true_iff, pack_and_signBit_eq_zero_iff negative hfull]
  unfold ofBits
  rw [if_neg (pack_ne_zeroField negative hfull), if_neg hlead]
  simp only [hmant, hexp, hsign, h, if_true]

/-- The canonical values of a window. -/
def Within (w : Window) : Canonical → Prop
  | zero => True
  | normalized _ mantissa exponent => w.contains mantissa exponent = true

theorem Within.full {w : Window} {c : Canonical} (h : c.Within w) : c.Within .full := by
  cases c with
  | zero => trivial
  | normalized negative m e => exact Window.contains_full h

/-- Every value of a window has a field, and the window reads it back. -/
theorem exists_toField {w : Window} {c : Canonical} (h : c.Within w) :
    ∃ field, c.toField = .ok field ∧ ofBits w field.word = .ok c := by
  cases c with
  | zero => exact ⟨zeroField, rfl, if_pos rfl⟩
  | normalized negative m e =>
      refine ⟨pack negative m e, ?_, ofBits_pack negative h⟩
      simp only [toField, Window.contains_full h, if_true]

/-- What a window reads is one of its values, and the word is the field of that value. -/
theorem of_ofBits {w : Window} {bits : UInt64} {c : Canonical} (h : ofBits w bits = .ok c) :
    c.Within w ∧ c.toBits = .ok bits := by
  unfold ofBits at h
  split at h
  · rename_i hzero
    cases h
    exact ⟨trivial, by rw [hzero]; rfl⟩
  · split at h
    · cases h
    · rename_i hlead
      simp only at h
      split at h
      · rename_i hc
        cases h
        refine ⟨hc, ?_⟩
        simp only [toBits, toField, Window.contains_full hc, if_true]
        show Except.ok (pack _ _ _).word = _
        rw [pack_parts hlead]
      · cases h

theorem within_full_iff {c : Canonical} : c.Within .full ↔ ∃ bits, c.toBits = .ok bits := by
  refine ⟨?_, ?_⟩
  · intro h
    obtain ⟨field, hfield, -⟩ := exists_toField h
    exact ⟨field.word, by rw [toBits, hfield]; rfl⟩
  · intro hparts
    obtain ⟨bits, h⟩ := hparts
    cases c with
    | zero => trivial
    | normalized negative m e =>
        by_contra hc
        have hout : ¬ Window.full.contains m e = true := hc
        simp only [toBits, toField, hout] at h
        cases h

theorem ofBits_of_toBits {w : Window} {bits : UInt64} {c : Canonical} (hw : c.Within w)
    (h : c.toBits = .ok bits) : ofBits w bits = .ok c := by
  obtain ⟨field, hfield, hread⟩ := exists_toField hw
  rw [toBits, hfield] at h
  cases h
  exact hread

/-- Whether the exponent of a value lies within the bounds of a window; zero has none. -/
def ExponentWithin (w : Window) : Canonical → Prop
  | zero => True
  | normalized _ _ exponent => w.minExponent ≤ exponent.toInt ∧ exponent.toInt ≤ w.maxExponent

theorem within_iff {w : Window} {c : Canonical} :
    c.Within w ↔ c.Within .full ∧ c.ExponentWithin w := by
  refine ⟨?_, ?_⟩
  · intro h
    refine ⟨h.full, ?_⟩
    cases c with
    | zero => trivial
    | normalized negative m e => exact (Window.contains_iff.mp h).2
  · intro hparts
    obtain ⟨hfull, hexp⟩ := hparts
    cases c with
    | zero => trivial
    | normalized negative m e =>
        exact Window.contains_iff.mpr ⟨(Window.contains_iff.mp hfull).1, hexp⟩

theorem ofBits_full {w : Window} {bits : UInt64} {c : Canonical} (h : ofBits w bits = .ok c) :
    ofBits .full bits = .ok c := by
  obtain ⟨hw, hbits⟩ := of_ofBits h
  exact ofBits_of_toBits hw.full hbits

theorem toBits_eq_error_iff {c : Canonical} :
    (∃ cause, c.toBits = .error cause) ↔
      ∃ (negative : Bool) (m : UInt64) (e : Int32), c = normalized negative m e ∧
        ¬ ((10 ^ 15 ≤ m.toNat ∧ m.toNat ≤ 10 ^ 16 - 1) ∧ (-96 ≤ e.toInt ∧ e.toInt ≤ 80)) := by
  have hout : (∃ cause, c.toBits = .error cause) ↔ ¬ c.Within .full := by
    rw [within_full_iff]
    cases c.toBits <;> simp
  rw [hout]
  cases c with
  | zero => simp [Within]
  | normalized negative m e =>
      have hrange : m.toNat < 10 ^ 16 ↔ m.toNat ≤ 10 ^ 16 - 1 := by omega
      simp only [Within, Window.full_contains_iff, hrange]
      refine ⟨?_, ?_⟩
      · intro h
        exact ⟨negative, m, e, rfl, h⟩
      · intro hparts
        obtain ⟨negative', m', e', heq, h⟩ := hparts
        cases heq
        exact h

/--
**A window reads a field as a value exactly when the value packs into that field and its
exponent lies within the bounds.**  So no field has two meanings, not even in two windows,
every value of the format has one field, and the values that cannot be packed are those with a
mantissa of another length or an exponent outside the format.
-/
theorem ofBits_iff_toBits :
    (∀ (w : Window) (bits : UInt64) (c : Canonical),
      ofBits w bits = .ok c ↔ c.toBits = .ok bits ∧ c.ExponentWithin w) ∧
    (∀ (v w : Window) (bits : UInt64) (c d : Canonical),
      ofBits v bits = .ok c → ofBits w bits = .ok d → c = d) ∧
    (∀ c : Canonical, c.Within .full → ∃! bits, ofBits .full bits = .ok c) ∧
    (∀ c : Canonical, (∃ cause, c.toBits = .error cause) ↔
      ∃ (negative : Bool) (m : UInt64) (e : Int32), c = normalized negative m e ∧
        ¬ ((10 ^ 15 ≤ m.toNat ∧ m.toNat ≤ 10 ^ 16 - 1) ∧ (-96 ≤ e.toInt ∧ e.toInt ≤ 80))) := by
  refine ⟨?_, ?_, ?_, fun c => toBits_eq_error_iff⟩
  · intro w bits c
    refine ⟨?_, ?_⟩
    · intro h
      obtain ⟨hw, hbits⟩ := of_ofBits h
      exact ⟨hbits, (within_iff.mp hw).2⟩
    · intro hparts
      obtain ⟨hbits, hexp⟩ := hparts
      exact ofBits_of_toBits (within_iff.mpr ⟨within_full_iff.mpr ⟨bits, hbits⟩, hexp⟩) hbits
  · intro v w bits c d hc hd
    have heq := (ofBits_full hc).symm.trans (ofBits_full hd)
    cases heq
    rfl
  · intro c hc
    obtain ⟨bits, hbits⟩ := within_full_iff.mp hc
    refine ⟨bits, ofBits_of_toBits hc hbits, ?_⟩
    intro other hother
    have heq := (of_ofBits hother).2.symm.trans hbits
    cases heq
    rfl

/-- The field of one unit: mantissa 10 ^ 15 at exponent -15, read by the narrowest window for it. -/
theorem ofBits_one_unit :
    ofBits ⟨-15, -15, by decide, by decide, by decide⟩ 0xD4838D7EA4C68000
      = .ok (normalized false 1000000000000000 (-15)) :=
  (ofBits_iff_toBits.1 _ _ _).mpr ⟨rfl, by decide, by decide⟩

end Canonical

end AmountField.Issued
