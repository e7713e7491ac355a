/-
The shortest positional literal of a number.

A positional literal is what `-?digits(.digits)?` matches, with neither run of digits empty: it has
no plus sign, no exponent and no point without a digit on either side of it.  One number is spelled
by many of them, since zeros may stand in front of the digits and, behind a point, after them, and
a zero may have a sign.

`Tight` says that nothing of this kind is there, and `Tight.eq_or_longer` that a tight literal is
shorter than every other one of its number.  The parts are compared one by one.  A tight literal has
the fewest places, because its last digit is not a zero that could be left out.  It has the fewest
digits in front of the point, because it reaches the power of ten of its first digit, and a shorter
run does not.  So no part of it is longer than the same part of another literal, and where none is
shorter either, the two have the same number of digits in the same places: they are equal, because
runs of one length that spell one number are.  `IsShortest` says the same of texts.
-/
import AmountField.Proofs.Decimal.Size

namespace AmountField.Decimal

theorem Sign.cast_apply (s : Sign) (n : Nat) :
    ((s.apply n : ℤ) : ℚ) = (if s.isMinus then -1 else 1) * n := by
  unfold Sign.apply
  split <;> simp

theorem Sign.apply_neg_iff {s : Sign} {n : Nat} : s.apply n < 0 ↔ s = .minus ∧ n ≠ 0 := by
  cases s <;> simp [Sign.apply, Sign.isMinus, Nat.pos_iff_ne_zero]

theorem Sign.ten_dvd_apply_iff {s : Sign} {n : Nat} : (10 : ℤ) ∣ s.apply n ↔ 10 ∣ n := by
  unfold Sign.apply
  split <;> omega

namespace Plain

/-- A literal of the form `-?digits(.digits)?`. -/
structure IsPositional (p : Plain) : Prop where
  sign_ne_plus : p.sign ≠ .plus
  exponent_eq_none : p.exponent = none
  whole_ne_nil : p.whole ≠ []
  fraction_ne_nil : p.fraction ≠ some []

/-- A positional literal without superfluous zeros. -/
structure Tight (p : Plain) : Prop extends IsPositional p where
  /-- A zero has no sign. -/
  signed : p.sign = .minus → p.coefficient ≠ 0
  /-- The first digit counts, unless it is the only one in front of the point. -/
  first : p.whole.length = 1 ∨ 10 ^ (p.digits.length - 1) ≤ p.coefficient.natAbs
  /-- The last digit counts, if it stands behind the point. -/
  last : p.places = 0 ∨ ¬ (10 : ℤ) ∣ p.coefficient

/-! ### Parts -/

theorem length_digits (p : Plain) : p.digits.length = p.whole.length + p.places :=
  List.length_append

theorem IsPositional.length_chars {p : Plain} (h : p.IsPositional) :
    p.chars.length = p.sign.chars.length + p.whole.length
      + if p.places = 0 then 0 else p.places + 1 := by
  have hfraction := h.fraction_ne_nil
  have htail : p.tail = [] := by rw [tail, h.exponent_eq_none]
  have hplaces : p.places = (p.fraction.getD []).length := rfl
  simp only [chars, htail, body, List.length_append, List.length_nil]
  cases hf : p.fraction with
  | none =>
      have hzero : p.places = 0 := by rw [hplaces, hf]; rfl
      rw [if_pos hzero]
      rfl
  | some ds =>
      rw [hf, Option.getD_some] at hplaces
      have hne : ds ≠ [] := fun hnil => hfraction (by rw [hf, hnil])
      have hpos : 0 < ds.length := List.length_pos_iff.mpr hne
      rw [if_neg (by omega)]
      simp only [List.length_cons]
      omega

theorem IsPositional.eq_of_parts {p q : Plain} (hp : p.IsPositional) (hq : q.IsPositional)
    (hsign : p.sign.chars.length = q.sign.chars.length)
    (hwhole : p.whole.length = q.whole.length) (hplaces : p.places = q.places)
    (hdigits : Nat.ofDigitChars 10 p.digits 0 = Nat.ofDigitChars 10 q.digits 0) : p = q := by
  have hrun : p.digits = q.digits := by
    refine Digits.eq_of_ofDigitChars_eq p.isDigits q.isDigits ?_ hdigits
    show p.digits.length = q.digits.length
    rw [length_digits, length_digits, hwhole, hplaces]
  obtain ⟨hwhole', hfraction⟩ := List.append_inj hrun hwhole
  have hp' := hp.sign_ne_plus
  have hq' := hq.sign_ne_plus
  have hpe := hp.exponent_eq_none
  have hqe := hq.exponent_eq_none
  have hpf := hp.fraction_ne_nil
  have hqf := hq.fraction_ne_nil
  obtain ⟨s, _, f, _, _, _⟩ := p
  obtain ⟨t, _, g, _, _, _⟩ := q
  have hst : s = t := by
    cases s <;> cases t <;> simp_all [Sign.chars]
  have hfg : f = g := by
    cases f <;> cases g <;> simp_all
  simp_all

/-! ### Two literals of one number -/

section

variable {p q : Plain}

/-- Literals of one number have the same digits up to zeros behind them. -/
theorem coefficient_mul_pow (hp : p.IsPositional) (hq : q.IsPositional) (h : q.value = p.value) :
    q.coefficient * 10 ^ p.places = p.coefficient * 10 ^ q.places := by
  rw [value_of_exponent_none hq.exponent_eq_none, value_of_exponent_none hp.exponent_eq_none,
    zpow_neg, zpow_neg, zpow_natCast, zpow_natCast, ← div_eq_mul_inv, ← div_eq_mul_inv,
    div_eq_div_iff (by positivity) (by positivity)] at h
  exact_mod_cast h

theorem Tight.places_le (hp : p.Tight) (hq : q.IsPositional) (h : q.value = p.value) :
    p.places ≤ q.places := by
  by_contra hlt
  obtain ⟨k, hk⟩ : ∃ k, p.places = q.places + (k + 1) := ⟨p.places - q.places - 1, by omega⟩
  have hpow : (10 : ℤ) ^ q.places ≠ 0 := by positivity
  have hmul := coefficient_mul_pow hp.toIsPositional hq h
  rw [hk, pow_add, mul_comm (10 ^ q.places), ← mul_assoc, mul_left_inj' hpow] at hmul
  have hten : (10 : ℤ) ∣ p.coefficient := by
    rw [← hmul, pow_succ, ← mul_assoc]
    exact Dvd.intro_left _ rfl
  rcases hp.last with hzero | hlast
  · omega
  · exact hlast hten

/-- The other literal is a tight one with zeros behind its digits. -/
theorem Tight.exists_coefficient_eq (hp : p.Tight) (hq : q.IsPositional) (h : q.value = p.value) :
    ∃ j, q.places = p.places + j ∧ q.coefficient = p.coefficient * 10 ^ j := by
  have hle := hp.places_le hq h
  obtain ⟨j, hj⟩ := Nat.exists_eq_add_of_le hle
  have hpow : (10 : ℤ) ^ p.places ≠ 0 := by positivity
  have hmul := coefficient_mul_pow hp.toIsPositional hq h
  rw [hj, pow_add, mul_comm (10 ^ p.places), ← mul_assoc, mul_left_inj' hpow] at hmul
  exact ⟨j, hj, hmul⟩

theorem Tight.length_whole_le (hp : p.Tight) (hq : q.IsPositional) (h : q.value = p.value) :
    p.whole.length ≤ q.whole.length := by
  have hqpos : 0 < q.whole.length := List.length_pos_iff.mpr hq.whole_ne_nil
  rcases hp.first with hone | hfirst
  · omega
  · obtain ⟨j, hj, hcoefficient⟩ := hp.exists_coefficient_eq hq h
    have hlt : q.coefficient.natAbs < 10 ^ q.digits.length := by
      rw [natAbs_coefficient]
      exact Digits.ofDigitChars_lt q.isDigits
    have hpow : 10 ^ (p.digits.length - 1 + j) < 10 ^ q.digits.length :=
      calc 10 ^ (p.digits.length - 1 + j) = 10 ^ (p.digits.length - 1) * 10 ^ j := pow_add _ _ _
        _ ≤ p.coefficient.natAbs * 10 ^ j := Nat.mul_le_mul_right _ hfirst
        _ = q.coefficient.natAbs := by rw [hcoefficient, Int.natAbs_mul, Int.natAbs_pow]; rfl
        _ < 10 ^ q.digits.length := hlt
    have hexp := (Nat.pow_lt_pow_iff_right (by decide : 1 < 10)).mp hpow
    rw [length_digits, length_digits] at hexp
    omega

/-- A tight literal has a sign only where every literal of its number has one. -/
theorem Tight.length_sign_le (hp : p.Tight) (hq : q.IsPositional) (h : q.value = p.value) :
    p.sign.chars.length ≤ q.sign.chars.length := by
  by_cases hminus : p.sign = .minus
  · have hneg : p.coefficient < 0 := by
      have hne := mt (apply_eq_zero_iff _ _).mpr (hp.signed hminus)
      exact Sign.apply_neg_iff.mpr ⟨hminus, hne⟩
    obtain ⟨j, -, hcoefficient⟩ := hp.exists_coefficient_eq hq h
    have hqneg : q.coefficient < 0 := by
      rw [hcoefficient]
      exact Int.mul_neg_of_neg_of_pos hneg (by positivity)
    rw [hminus, (Sign.apply_neg_iff.mp hqneg).1]
  · have hnone : p.sign = .none := by
      have hplus := hp.sign_ne_plus
      cases hs : p.sign <;> simp_all
    rw [hnone]
    exact Nat.zero_le _

/-- **A tight literal is the shortest positional literal of its number, and the only one of its
length.** -/
theorem Tight.eq_or_longer (hp : p.Tight) (hq : q.IsPositional) (h : q.value = p.value) :
    q = p ∨ p.chars.length < q.chars.length := by
  have hsign := hp.length_sign_le hq h
  have hwhole := hp.length_whole_le hq h
  obtain ⟨j, hj, hcoefficient⟩ := hp.exists_coefficient_eq hq h
  rw [hp.length_chars, hq.length_chars]
  -- no part of the other is shorter, so it is longer as soon as one part is
  by_cases hsame : p.sign.chars.length = q.sign.chars.length ∧
      p.whole.length = q.whole.length ∧ j = 0
  · obtain ⟨hsign', hwhole', rfl⟩ := hsame
    left
    have hdigits : Nat.ofDigitChars 10 q.digits 0 = Nat.ofDigitChars 10 p.digits 0 := by
      rw [← natAbs_coefficient, ← natAbs_coefficient, hcoefficient, pow_zero, mul_one]
    exact hq.eq_of_parts hp.toIsPositional hsign'.symm hwhole'.symm hj hdigits
  · right
    split <;> split <;> omega

end

end Plain

/-! ### Texts -/

/-- A text is a positional literal of a number. -/
def Spells (text : String) (v : ℚ) : Prop :=
  ∃ p : Plain, p.IsPositional ∧ p.text = text ∧ p.value = v

/-- A text is the one shortest positional literal of a number. -/
structure IsShortest (text : String) (v : ℚ) : Prop where
  spells : Spells text v
  lt_length : ∀ other, Spells other v → other ≠ text → text.length < other.length

theorem Plain.Tight.isShortest {p : Plain} (hp : p.Tight) : IsShortest p.text p.value where
  spells := ⟨p, hp.toIsPositional, rfl, rfl⟩
  lt_length := by
    intro other hother hne
    obtain ⟨q, hq, rfl, hvalue⟩ := hother
    rcases hp.eq_or_longer hq hvalue with heq | hlt
    · exact absurd (congrArg Plain.text heq) hne
    · rw [Plain.text, Plain.text, String.length_ofList, String.length_ofList]
      exact hlt

end AmountField.Decimal
