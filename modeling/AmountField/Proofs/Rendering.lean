/-
The text of a value is the shortest positional literal of its number.

The text is the mantissa laid out by position at the negated exponent, after `stripZeros` has moved
the zeros at the end of the mantissa into the exponent.  That loses nothing, and it leaves a
mantissa without a zero at its end, which is laid out as a tight literal.

A literal without an exponent is short when its digits are few and its scale is small, so the
text of a value is read back whole, and `encode_render` says what comes of it in a window that
holds the value: the field that the value was taken from.
-/
import AmountField.Proofs.Decimal.Layout
import AmountField.Proofs.Encoding

namespace AmountField

namespace Decimal.Sign

/-- The sign that a number is shown with. -/
def shown (negative : Bool) : Sign := if negative then .minus else .none

theorem shown_ne_plus (negative : Bool) : shown negative ≠ .plus := by
  cases negative <;> decide

theorem isMinus_shown (negative : Bool) : (shown negative).isMinus = negative := by
  cases negative <;> rfl

theorem length_chars_shown_le (negative : Bool) : (shown negative).chars.length ≤ 1 := by
  cases negative <;> decide

end Decimal.Sign

namespace Issued

open Decimal (Plain Sign)

namespace Canonical

/-! ### Zeros at the end of a mantissa -/

/-- Stripping zeros moves a power of ten into the exponent. -/
theorem stripZeros_spec (m : Nat) (e : Int) :
    ∃ k : Nat, m = (stripZeros m e).1 * 10 ^ k ∧ (stripZeros m e).2 = e + k := by
  induction m, e using stripZeros.induct with
  | case1 m e h ih =>
      obtain ⟨k, hm, he⟩ := ih
      rw [stripZeros, if_pos h]
      refine ⟨k + 1, ?_, by rw [he]; push_cast; ring⟩
      have hten : m = m / 10 * 10 := by omega
      rw [Nat.pow_succ, ← Nat.mul_assoc, ← hm]
      exact hten
  | case2 m e h =>
      rw [stripZeros, if_neg h]
      exact ⟨0, by simp, by simp⟩

theorem stripZeros_mod {m : Nat} (hm : m ≠ 0) (e : Int) : (stripZeros m e).1 % 10 ≠ 0 := by
  induction m, e using stripZeros.induct with
  | case1 m e h ih =>
      rw [stripZeros, if_pos h]
      exact ih (by omega)
  | case2 m e h =>
      rw [stripZeros, if_neg h]
      exact fun hmod => h ⟨hm, hmod⟩

section

variable {m : UInt64}

theorem toNat_ne_zero (hm : m ≠ 0) : m.toNat ≠ 0 := mt (UInt64.toNat_inj (b := 0)).mp hm

/-- A 64-bit mantissa has fewer than twenty zeros to lose. -/
theorem stripZeros_exponent_le (hm : m ≠ 0) (e : Int) :
    e ≤ (stripZeros m.toNat e).2 ∧ (stripZeros m.toNat e).2 ≤ e + 19 := by
  obtain ⟨k, hk, he⟩ := stripZeros_spec m.toNat e
  have hpos : 0 < (stripZeros m.toNat e).1 := by
    have hmod := stripZeros_mod (toNat_ne_zero hm) e
    omega
  have hpow : 10 ^ k < 10 ^ 20 :=
    calc 10 ^ k ≤ (stripZeros m.toNat e).1 * 10 ^ k := Nat.le_mul_of_pos_left _ hpos
      _ = m.toNat := hk.symm
      _ < 2 ^ 64 := m.toNat_lt
      _ < 10 ^ 20 := by decide
  have hlt := (Nat.pow_lt_pow_iff_right (by decide : 1 < 10)).mp hpow
  omega

theorem length_toDigits_stripZeros_le (m : UInt64) (e : Int) :
    (Nat.toDigits 10 (stripZeros m.toNat e).1).length ≤ 20 := by
  obtain ⟨k, hk, -⟩ := stripZeros_spec m.toNat e
  refine (Nat.length_toDigits_le_iff (by decide) (by decide)).mpr ?_
  calc (stripZeros m.toNat e).1
      ≤ (stripZeros m.toNat e).1 * 10 ^ k := Nat.le_mul_of_pos_right _ (Nat.pow_pos (by decide))
    _ = m.toNat := hk.symm
    _ < 2 ^ 64 := m.toNat_lt
    _ < 10 ^ 20 := by decide

end

/-! ### The text of a value -/

/-- A value has no mantissa, or one that is not zero. -/
def Significant : Canonical → Prop
  | zero => True
  | normalized _ m _ => m ≠ 0

theorem Within.significant {c : Canonical} (h : c.Within .full) : c.Significant := by
  cases c with
  | zero => trivial
  | normalized negative m e =>
      have hl := (Window.full_contains_iff.mp h).1.1
      rintro rfl
      exact absurd hl (by decide)

/-- **The text of a value is a tight literal that spells the value.** -/
theorem exists_tight_render {c : Canonical} (h : c.Significant) :
    ∃ p : Plain, p.Short ∧ p.Tight ∧ p.text = c.render ∧ p.value = c.value := by
  cases c with
  | zero =>
      refine ⟨⟨.none, ['0'], none, none, by decide, List.all_eq_true.mp rfl⟩, by decide,
        ⟨⟨by decide, rfl, by decide, by decide⟩, by decide, Or.inl rfl, Or.inl rfl⟩, rfl, ?_⟩
      rw [value_zero, Plain.value_eq_zero_iff]
      rfl
  | normalized negative m e =>
      obtain ⟨k, hm, he⟩ := stripZeros_spec m.toNat e.toInt
      have hmod := stripZeros_mod (toNat_ne_zero h) e.toInt
      have hexp := stripZeros_exponent_le h e.toInt
      have hlength := length_toDigits_stripZeros_le m e.toInt
      set m' := (stripZeros m.toNat e.toInt).1
      set e' := (stripZeros m.toNat e.toInt).2
      obtain ⟨p, htight, hchars, hvalue⟩ :=
        Plain.exists_tight_positional (Sign.shown_ne_plus negative) hmod (-e')
      refine ⟨p, ?_, htight, ?_, ?_⟩
      · have hsign := Sign.length_chars_shown_le negative
        have hlayout := Decimal.length_positional_le (Nat.toDigits 10 m') (-e')
        have hl := e.le_toInt
        have hu := e.toInt_lt
        apply Plain.short_of_length_chars
        rw [hchars, List.length_append]
        omega
      · rw [Plain.text, hchars, render]
        cases negative <;> rfl
      · have hcast : (m.toNat : ℚ) = m' * 10 ^ k := by exact_mod_cast hm
        rw [hvalue, value_normalized, Sign.cast_apply, Sign.isMinus_shown, neg_neg, he,
          ten_zpow_add, zpow_natCast, hcast]
        ring

/-- **A field is encoded from the text of its value**, in every window that reads it. -/
theorem encode_render {w : Window} {field : IssuedField} {c : Canonical}
    (h : ofBits w field.word = .ok c) : encode w c.render = .ok field := by
  obtain ⟨hwithin, hbits⟩ := of_ofBits h
  obtain ⟨p, hshort, -, htext, hvalue⟩ := exists_tight_render hwithin.full.significant
  have htrunc : w.truncate? p.value = some c := by
    rw [hvalue]
    exact Window.truncate?_value hwithin
  obtain ⟨field', hfield, -, hok⟩ := encode_of_truncate? hshort htrunc
  have hword : field'.word = field.word := by
    rw [toBits, hfield] at hbits
    exact Except.ok.inj hbits
  have heq : field' = field := by
    cases field
    cases field'
    cases hword
    rfl
  rw [← htext, hok, heq]

/--
**The text of a value is the one shortest positional literal of its number.**  Every other text of
the form `-?digits(.digits)?` with that number is longer, so no zero of it could be left out, there
is no sign on a zero and no point without digits behind it.  The text is read as the number, and the
exponent stays a 32-bit integer while the zeros at the end of the mantissa are moved into it.
-/
theorem render_isShortest :
    (Decimal.IsShortest zero.render 0 ∧
      Decimal.Reading.ofText zero.render = .ok (.exact Decimal.zero)) ∧
    ∀ (negative : Bool) (m : UInt64) (e : Int32), m ≠ 0 → e.toInt ≤ 2 ^ 31 - 21 →
      Decimal.IsShortest (normalized negative m e).render
        ((-1) ^ negative.toNat * m.toNat * 10 ^ e.toInt) ∧
      (∃ d : Decimal, Decimal.Reading.ofText (normalized negative m e).render = .ok (.exact d) ∧
        d.value = (-1) ^ negative.toNat * m.toNat * 10 ^ e.toInt) ∧
      (stripZeros m.toNat e.toInt).2 < 2 ^ 31 := by
  refine ⟨⟨?_, rfl⟩, ?_⟩
  · obtain ⟨p, -, htight, htext, hvalue⟩ := exists_tight_render (c := zero) trivial
    rw [← value_zero, ← htext, ← hvalue]
    exact htight.isShortest
  · intro negative m e hm he
    obtain ⟨p, hshort, htight, htext, hvalue⟩ :=
      exists_tight_render (c := normalized negative m e) hm
    have hnumber : (-1) ^ negative.toNat * m.toNat * 10 ^ e.toInt = p.value := by
      rw [hvalue, value_normalized]
      cases negative <;> simp
    rw [hnumber, ← htext]
    have hexp := (stripZeros_exponent_le hm e.toInt).2
    exact ⟨htight.isShortest, Plain.ofText_of_exponent_none hshort htight.exponent_eq_none,
      by omega⟩

/-- A negative amount whose mantissa ends in zeros is written without them. -/
theorem render_isShortest_fifteen_thousandths :
    (normalized true 1500 (-5)).render = "-0.015" ∧ (1500 : UInt64) ≠ 0 ∧
      (-5 : Int32).toInt ≤ 2 ^ 31 - 21 ∧
      Decimal.IsShortest "-0.015" ((-1) ^ 1 * 1500 * 10 ^ (-5 : ℤ)) := by
  have hstrip : stripZeros 1500 (-5) = (15, -3) := by simp [stripZeros]
  have htext : (normalized true 1500 (-5)).render = "-0.015" := by
    rw [render, show stripZeros (UInt64.toNat 1500) (Int32.toInt (-5)) = (15, -3) from hstrip]
    rfl
  have hshortest := (render_isShortest.2 true 1500 (-5) (by decide) (by decide)).1
  rw [htext] at hshortest
  exact ⟨htext, by decide, by decide, hshortest⟩

end Canonical

end Issued

end AmountField
