/-
Which decimal texts are accepted, and what the size of an exponent has to do with it.

What is accepted is a literal, with the one exception that the reader of the base lets through: a
point at the front of the text with a sign right behind it.  `exists_literal` says so, and with
that exception put aside the form of an accepted text is known, whoever accepts it.  A native
amount may not have a point, so for it there is no exception.

The two readings do not accept the same bases.  The exact one allows separators and the sign
behind a point, and the second look, which only ever sees exponents beyond every scale, allows
neither.  So `1_0e5` is a number and `1_0e99999999999999999999` is none.  On a base that has
neither the exponent makes no difference: if it is accepted once, it makes a plain literal with
every exponent, and no plain literal is refused.
-/
import AmountField.Proofs.Decimal.Literal
import AmountField.Proofs.Encoding
import AmountField.Proofs.Native

namespace AmountField

open Decimal (Literal Plain PlainExponent Reading SignBehindPoint isExponentMark)

/-! ### The form of an accepted text -/

namespace Decimal

/-- Apart from the exception, what is accepted is a literal, negative where it shows a minus. -/
theorem literal_of_ofText {text : String} {r : Reading} (h : Reading.ofText text = .ok r)
    (hsign : ¬ SignBehindPoint text.toList) :
    ∃ p : Literal, p.text = text ∧ ∀ d, r = .exact d →
      (d.digits < 0 ↔ text.toList.head? = some '-' ∧ Literal.Nonzero p.body) := by
  obtain ⟨p, hlies, hdigits⟩ := exists_literal h
  have hchars := hlies.eq_chars hsign
  refine ⟨p, by rw [Literal.text, ← hchars, String.ofList_toList], ?_⟩
  intro d hd
  rw [hdigits d hd, hchars, Literal.head?_chars, Literal.coefficient_neg_iff]

end Decimal

theorem Issued.exists_reading_of_encode {w : Issued.Window} {text : String} {field : IssuedField}
    (h : Issued.encode w text = .ok field) : ∃ r, Reading.ofText text = .ok r := by
  obtain ⟨c, hc, -⟩ := bind_eq_ok_iff.mp h
  obtain ⟨r, hr, -⟩ := bind_eq_ok_iff.mp hc
  exact ⟨r, hr⟩

/--
**An accepted text is a literal**, unless it has a sign behind a point at its front: a sign in
front if anywhere, digits and separators with at most one point and at least one digit, and an
exponent with digits.  An exact reading is negative when the text starts with a minus and not
all of its digits are zeros.  The text of a native amount has no exception.
-/
theorem literal_of_accepted (text : String) :
    (∀ r, Reading.ofText text = .ok r → ¬ SignBehindPoint text.toList →
      ∃ p : Literal, p.text = text ∧ ∀ d, r = .exact d →
        (d.digits < 0 ↔ text.toList.head? = some '-' ∧ Literal.Nonzero p.body)) ∧
    (∀ w field, Issued.encode w text = .ok field → ¬ SignBehindPoint text.toList →
      ∃ p : Literal, p.text = text) ∧
    (∀ d, Native.verify text = .ok d → ∃ p : Literal, p.text = text) := by
  refine ⟨fun r h hsign => Decimal.literal_of_ofText h hsign, ?_, ?_⟩
  · intro w field h hsign
    obtain ⟨r, hr⟩ := Issued.exists_reading_of_encode h
    obtain ⟨p, hp, -⟩ := Decimal.literal_of_ofText hr hsign
    exact ⟨p, hp⟩
  · intro d h
    obtain ⟨hpoint, hr, -⟩ := Native.verify_eq_ok_iff.mp h
    have hsign : ¬ SignBehindPoint text.toList := by
      intro hexception
      obtain ⟨c, rest, -, hchars⟩ := Decimal.exists_of_signBehindPoint hexception
      simp [Native.hasPoint, hchars] at hpoint
    obtain ⟨p, hp, -⟩ := Decimal.literal_of_ofText hr hsign
    exact ⟨p, hp⟩

/-- The text of a number below zero, with a separator and a point. -/
theorem literal_of_minus_ten_and_half :
    Reading.ofText "-1_0.5e3" = .ok (.exact ⟨-105, -2⟩) ∧
      ∃ p : Literal, p.text = "-1_0.5e3" ∧ ∀ d, Reading.exact ⟨-105, -2⟩ = .exact d →
        (d.digits < 0 ↔ "-1_0.5e3".toList.head? = some '-' ∧ Literal.Nonzero p.body) :=
  have hread : Reading.ofText "-1_0.5e3" = .ok (.exact ⟨-105, -2⟩) := rfl
  ⟨hread, (literal_of_accepted "-1_0.5e3").1 _ hread (by decide)⟩

/-- A sign behind a point is read as the sign of the number, and the text is no literal. -/
theorem exact_of_sign_behind_point :
    Reading.ofText ".-5" = .ok (.exact ⟨-5, 2⟩) ∧ ¬ ∃ p : Literal, p.text = ".-5" := by
  refine ⟨rfl, ?_⟩
  intro hparts
  obtain ⟨p, hp⟩ := hparts
  have hchars : p.chars = ['.', '-', '5'] := by
    rw [← String.toList_ofList (l := p.chars), ← Literal.text, hp]
    rfl
  apply Literal.not_signBehindPoint (p := p)
  rw [hchars]
  decide

/-! ### The size of an exponent -/

namespace Decimal

/-- A base with an exponent behind it. -/
def withExponent (base : List Char) (x : PlainExponent) : String :=
  String.ofList (base ++ x.mark :: x.chars)

/-- The text is refused for its form. -/
def Malformed (text : String) : Prop :=
  ∃ cause, Reading.ofText text = .error cause ∧ cause.kind = .invalidFormat

theorem malformed_iff {text : String} : Malformed text ↔ ∀ r, Reading.ofText text ≠ .ok r := by
  unfold Malformed Reading.ofText
  split
  · simp
  · split
    · simp
    · simp [Error.kind]

theorem signBehindPoint_of_append {base cs : List Char} {mark : Char}
    (hmark : isExponentMark mark = true) (h : SignBehindPoint (base ++ mark :: cs)) :
    SignBehindPoint base := by
  have hne : mark ≠ '.' ∧ mark ≠ '+' ∧ mark ≠ '-' := by
    refine ⟨?_, ?_, ?_⟩ <;> rintro rfl <;> exact absurd hmark (by decide)
  match base with
  | [] => simp [SignBehindPoint, hne] at h
  | [a] => simp [SignBehindPoint, hne] at h
  | a :: b :: rest => exact h

section

variable {base : List Char} {x y : PlainExponent}

/-- A base without separators that is accepted with one exponent makes a plain literal with
every exponent. -/
theorem plain_of_accepted (hmark : ∀ c ∈ base, isExponentMark c = false)
    (hseparator : '_' ∉ base) (hsign : ¬ SignBehindPoint base)
    (hread : ¬ Malformed (withExponent base x))
    (hy : (octets (withExponent base y)).length < 2 ^ 62) :
    ∃ p : Plain, p.Short ∧ p.text = withExponent base y ∧ p.power = y.power ∧
      (p.coefficient ≠ 0 ↔ Literal.Nonzero base) := by
  rw [malformed_iff] at hread
  push Not at hread
  obtain ⟨r, hr⟩ := hread
  obtain ⟨p, hlies, -⟩ := exists_literal hr
  rw [withExponent, String.toList_ofList] at hlies
  have hchars := hlies.eq_chars (mt (signBehindPoint_of_append x.isMark) hsign)
  have hbase : base = p.sign.chars ++ p.body := by
    have hsplit := p.splitFirst_mark
    rw [← hchars, Text.splitFirst_append hmark x.isMark] at hsplit
    exact (Prod.mk.inj hsplit).1
  have hdigits : ∀ c ∈ p.digits, c.isDigit = true := by
    intro c hc
    rcases p.isBase c hc with hd | rfl
    · exact hd
    · refine absurd ?_ hseparator
      rw [hbase]
      exact List.mem_append_right _ (Literal.mem_body_iff.mpr (Or.inl hc))
  have htext : (p.toPlain hdigits (some y)).text = withExponent base y := by
    rw [withExponent, Plain.text, Plain.chars, Literal.body_toPlain, hbase]
    rfl
  refine ⟨p.toPlain hdigits (some y), ?_, htext, rfl, ?_⟩
  · rw [Plain.Short, htext]
    exact hy
  · rw [Literal.coefficient_toPlain, Literal.coefficient_ne_zero_iff, hbase,
      Literal.nonzero_sign_append]

/-- What is accepted with one exponent is accepted with every exponent. -/
theorem not_malformed_of_accepted (hmark : ∀ c ∈ base, isExponentMark c = false)
    (hseparator : '_' ∉ base) (hsign : ¬ SignBehindPoint base)
    (hread : ¬ Malformed (withExponent base x))
    (hy : (octets (withExponent base y)).length < 2 ^ 62) :
    ¬ Malformed (withExponent base y) := by
  obtain ⟨p, hp, htext, -, -⟩ := plain_of_accepted hmark hseparator hsign hread hy
  rw [malformed_iff]
  push Not
  exact ⟨p.reading, htext ▸ Plain.ofText_plain hp⟩

end

theorem hasPoint_withExponent {base : List Char} (h : '.' ∉ base) (x : PlainExponent) :
    Native.hasPoint (withExponent base x) = false := by
  rw [Native.hasPoint, withExponent, String.toList_ofList, List.contains_eq_mem,
    decide_eq_false_iff_not]
  intro hmem
  rcases List.mem_append.mp hmem with hb | hx
  · exact h hb
  · exact x.point_not_mem hx

/-- An exponent beyond 64 bits leaves of a literal that it is zero, or which side it is on. -/
theorem reading_of_far {p : Plain} (h : p.Short) (hfar : 2 ^ 64 ≤ p.power.natAbs) :
    p.reading = if p.coefficient = 0 then .exact zero
      else if 0 < p.power then .unbounded else .vanishing := by
  have hplaces := h.places_lt
  rcases p.reading_cases with ⟨hfits, -⟩ | ⟨-, hzero, hr⟩ | ⟨hne, hhuge, hr⟩ | ⟨hne, htiny, hr⟩
  · rw [fitsScale_iff] at hfits
    omega
  · rw [hr, if_pos hzero]
  · rw [hr, if_neg hne, if_pos (by omega)]
  · rw [hr, if_neg hne, if_neg (by omega)]

end Decimal

theorem Issued.encode_of_far {p : Plain} (h : p.Short) (hfar : 2 ^ 64 ≤ p.power.natAbs)
    (w : Issued.Window) :
    (p.coefficient ≠ 0 → 0 < p.power → Overflows (Issued.encode w p.text)) ∧
      (p.coefficient = 0 ∨ p.power < 0 → Issued.encode w p.text = .ok Issued.zeroField) := by
  have hread := Plain.ofText_plain h
  rw [Decimal.reading_of_far h hfar] at hread
  refine ⟨?_, ?_⟩
  · intro hne hpos
    rw [if_neg hne, if_pos hpos] at hread
    exact ⟨.literalOverflow p.text, by simp only [encode, Canonical.ofText, hread]; rfl, rfl⟩
  · intro hsmall
    by_cases hzero : p.coefficient = 0
    · rw [if_pos hzero] at hread
      simp only [encode, Canonical.ofText, hread]
      rfl
    · have hneg : ¬ 0 < p.power := not_lt.mpr (hsmall.resolve_left hzero).le
      rw [if_neg hzero, if_neg hneg] at hread
      simp only [encode, Canonical.ofText, hread]
      rfl

theorem Native.verify_of_far {p : Plain} (h : p.Short) (hfar : 2 ^ 64 ≤ p.power.natAbs)
    (hpoint : Native.hasPoint p.text = false) :
    (p.coefficient ≠ 0 → Native.verify p.text = .error (.nativeRange p.text)) ∧
      (p.coefficient = 0 → Native.verify p.text = .ok Decimal.zero) := by
  have hread := Plain.ofText_plain h
  rw [Decimal.reading_of_far h hfar] at hread
  refine ⟨?_, ?_⟩
  · intro hne
    rw [if_neg hne] at hread
    by_cases hpos : 0 < p.power
    · rw [if_pos hpos] at hread
      exact Native.verify_of_reading hpoint hread nofun
    · rw [if_neg hpos] at hread
      exact Native.verify_of_reading hpoint hread nofun
  · intro hzero
    rw [if_pos hzero] at hread
    exact Native.verify_eq_ok_iff.mpr ⟨hpoint, hread, rfl⟩

/--
**On a base without separators, and without a sign behind a point at its front, the size of the
exponent does not decide whether a text is malformed.**  A base that is accepted once is, under
an exponent beyond 64 bits, an overflow or a zero field for every window, and a zero or out of
range as a native amount.
-/
theorem malformed_by_base {base : List Char} {x y : PlainExponent}
    (hmark : ∀ c ∈ base, isExponentMark c = false) (hseparator : '_' ∉ base)
    (hsign : ¬ SignBehindPoint base)
    (hx : (octets (Decimal.withExponent base x)).length < 2 ^ 62)
    (hy : (octets (Decimal.withExponent base y)).length < 2 ^ 62) :
    (Decimal.Malformed (Decimal.withExponent base x) ↔
      Decimal.Malformed (Decimal.withExponent base y)) ∧
    (¬ Decimal.Malformed (Decimal.withExponent base x) → 2 ^ 64 ≤ y.power.natAbs →
      (∀ w,
        (Literal.Nonzero base → 0 < y.power →
          Overflows (Issued.encode w (Decimal.withExponent base y))) ∧
        (¬ Literal.Nonzero base ∨ y.power < 0 →
          Issued.encode w (Decimal.withExponent base y) = .ok Issued.zeroField)) ∧
      ('.' ∉ base →
        (Literal.Nonzero base → Native.verify (Decimal.withExponent base y)
          = .error (.nativeRange (Decimal.withExponent base y))) ∧
        (¬ Literal.Nonzero base →
          Native.verify (Decimal.withExponent base y) = .ok Decimal.zero))) := by
  refine ⟨?_, ?_⟩
  · rw [← not_iff_not]
    exact ⟨fun h => Decimal.not_malformed_of_accepted hmark hseparator hsign h hy,
      fun h => Decimal.not_malformed_of_accepted hmark hseparator hsign h hx⟩
  · intro hread hfar
    obtain ⟨p, hp, htext, hpower, hnonzero⟩ :=
      Decimal.plain_of_accepted hmark hseparator hsign hread hy
    rw [← hpower] at hfar ⊢
    rw [← htext, ← hnonzero, not_ne_iff]
    refine ⟨Issued.encode_of_far hp hfar, ?_⟩
    intro hpoint
    exact Native.verify_of_far hp hfar (htext ▸ Decimal.hasPoint_withExponent hpoint y)

/-- The exponent `e5`. -/
def fifthPower : PlainExponent :=
  ⟨'e', .none, ['5'], Decimal.isExponentMark_e, by decide, List.all_eq_true.mp rfl⟩

/-- The exponent `e99999999999999999999`, beyond 64 bits. -/
def farPower : PlainExponent :=
  ⟨'e', .none, List.replicate 20 '9', Decimal.isExponentMark_e, by decide,
    List.all_eq_true.mp rfl⟩

/-- Minus twenty-five is a number under either exponent, and overflows under the second. -/
theorem malformed_minus_twenty_five :
    Decimal.withExponent ['-', '2', '5'] fifthPower = "-25e5" ∧
      Decimal.withExponent ['-', '2', '5'] farPower = "-25e99999999999999999999" ∧
      (Decimal.Malformed (Decimal.withExponent ['-', '2', '5'] fifthPower) ↔
        Decimal.Malformed (Decimal.withExponent ['-', '2', '5'] farPower)) ∧
      Overflows (Issued.encode .full (Decimal.withExponent ['-', '2', '5'] farPower)) := by
  have hread : ¬ Decimal.Malformed (Decimal.withExponent ['-', '2', '5'] fifthPower) := fun h =>
    Decimal.malformed_iff.mp h (.exact ⟨-25, -5⟩) rfl
  have hmark : ∀ c ∈ ['-', '2', '5'], isExponentMark c = false := by simp [isExponentMark]
  have hnonzero : Literal.Nonzero ['-', '2', '5'] := ⟨'2', by simp, rfl, by decide⟩
  obtain ⟨hiff, hfar⟩ := @malformed_by_base ['-', '2', '5'] fifthPower farPower hmark
    (by decide) (by decide) (by decide) (by decide)
  obtain ⟨hencode, -⟩ := hfar hread (by decide)
  exact ⟨rfl, rfl, hiff, (hencode .full).1 hnonzero (by decide)⟩

/-- With a separator in its base a text is a number under a small exponent and malformed under
one beyond 64 bits. -/
theorem malformed_of_separator :
    ¬ (Decimal.Malformed "1_0e5" ↔ Decimal.Malformed "1_0e99999999999999999999") := by
  intro h
  have hlarge : Decimal.Malformed "1_0e99999999999999999999" := ⟨_, rfl, rfl⟩
  exact Decimal.malformed_iff.mp (h.mpr hlarge) (.exact ⟨10, -5⟩) rfl

end AmountField
