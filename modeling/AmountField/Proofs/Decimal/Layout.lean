/-
A scaled integer laid out by position is the shortest literal of its number.

There are three layouts.  A scale that is not positive appends zeros, a small one puts the point
among the digits, and a large one puts zeros in front of them.  Each is the text of a literal whose
digits spell the integer, moved by the zeros that were appended, and whose places are the scale.

Each is tight when the integer has no zero at its end.  In front of the point stands the first
digit of the integer, which counts, or a single zero.  Behind the point, if there is one, the last
digit is that of the integer.
-/
import AmountField.Proofs.Decimal.Positional
import AmountField.Text.Positional

namespace AmountField.Decimal

open Text (positional)

namespace Plain

variable {s : Sign} {n k : Nat}

theorem isDigit_of_mem_zeros {c : Char} (h : c ∈ List.replicate k '0') : c.isDigit = true := by
  rw [List.eq_of_mem_replicate h]
  decide

theorem pow_length_toDigits_le (hn : n ≠ 0) :
    10 ^ ((Nat.toDigits 10 n).length + k - 1) ≤ n * 10 ^ k := by
  have hlength : 0 < (Nat.toDigits 10 n).length := Nat.length_toDigits_pos
  have hfirst := (Digits.pow_le_of_toDigits (Nat.pos_of_ne_zero hn)).1
  calc 10 ^ ((Nat.toDigits 10 n).length + k - 1)
      = 10 ^ ((Nat.toDigits 10 n).length - 1 + k) := by congr 1; omega
    _ = 10 ^ ((Nat.toDigits 10 n).length - 1) * 10 ^ k := pow_add _ _ _
    _ ≤ n * 10 ^ k := Nat.mul_le_mul_right _ hfirst

/-! ### Zeros behind the digits -/

/-- The digits of a number with zeros behind them. -/
def zerosBehind (s : Sign) (n k : Nat) : Plain where
  sign := s
  whole := Nat.toDigits 10 n ++ List.replicate k '0'
  fraction := none
  exponent := none
  ne_nil := by simp [Nat.toDigits_ne_nil]
  isDigits := by
    intro c hc
    rw [Option.getD_none, List.append_nil] at hc
    rcases List.mem_append.mp hc with hd | hz
    · exact Digits.isDigit_of_mem_toDigits hd
    · exact isDigit_of_mem_zeros hz

theorem chars_zerosBehind :
    (zerosBehind s n k).chars = s.chars ++ positional (Nat.toDigits 10 n) (-k) := by
  simp [chars, body, tail, zerosBehind, positional]

theorem digits_zerosBehind :
    (zerosBehind s n k).digits = Nat.toDigits 10 n ++ List.replicate k '0' :=
  List.append_nil _

theorem coefficient_zerosBehind : (zerosBehind s n k).coefficient = s.apply (n * 10 ^ k) := by
  rw [coefficient, digits_zerosBehind, Digits.ofDigitChars_append, List.length_replicate,
    Nat.ofDigitChars_replicate_zero, Nat.ofDigitChars_ten_toDigits, Nat.mul_zero, Nat.add_zero,
    Nat.mul_comm]
  rfl

theorem tight_zerosBehind (hs : s ≠ .plus) (hn : n ≠ 0) : (zerosBehind s n k).Tight where
  sign_ne_plus := hs
  exponent_eq_none := rfl
  whole_ne_nil := by simp [zerosBehind, Nat.toDigits_ne_nil]
  fraction_ne_nil := by simp [zerosBehind]
  signed := by
    intro _
    rw [coefficient_zerosBehind, Ne, apply_eq_zero_iff]
    positivity
  first := by
    right
    rw [coefficient_zerosBehind, natAbs_apply, digits_zerosBehind, List.length_append,
      List.length_replicate]
    exact pow_length_toDigits_le hn
  last := Or.inl rfl

/-! ### The point among the digits -/

/-- The digits of a number with the point in front of the last ones. -/
def pointAmong (s : Sign) (n k : Nat) : Plain where
  sign := s
  whole := (Nat.toDigits 10 n).take ((Nat.toDigits 10 n).length - k)
  fraction := some ((Nat.toDigits 10 n).drop ((Nat.toDigits 10 n).length - k))
  exponent := none
  ne_nil := by
    rw [Option.getD_some, List.take_append_drop]
    exact Nat.toDigits_ne_nil
  isDigits := by
    intro c hc
    rw [Option.getD_some, List.take_append_drop] at hc
    exact Digits.isDigit_of_mem_toDigits hc

theorem chars_pointAmong (hk : 0 < k) (hlt : k < (Nat.toDigits 10 n).length) :
    (pointAmong s n k).chars = s.chars ++ positional (Nat.toDigits 10 n) k := by
  simp [chars, body, tail, pointAmong, positional, hk.ne', hlt]

theorem digits_pointAmong : (pointAmong s n k).digits = Nat.toDigits 10 n :=
  List.take_append_drop _ _

theorem places_pointAmong (hlt : k < (Nat.toDigits 10 n).length) :
    (pointAmong s n k).places = k := by
  simp only [places, pointAmong, Option.getD_some, List.length_drop]
  omega

theorem coefficient_pointAmong : (pointAmong s n k).coefficient = s.apply n := by
  rw [coefficient, digits_pointAmong, Nat.ofDigitChars_ten_toDigits]
  rfl

theorem tight_pointAmong (hs : s ≠ .plus) (hn : n % 10 ≠ 0) (hk : 0 < k)
    (hlt : k < (Nat.toDigits 10 n).length) : (pointAmong s n k).Tight where
  sign_ne_plus := hs
  exponent_eq_none := rfl
  whole_ne_nil := by
    rw [← List.length_pos_iff]
    simp only [pointAmong, List.length_take]
    omega
  fraction_ne_nil := by
    intro hnil
    have hzero := places_pointAmong (s := s) hlt
    rw [places, show (pointAmong s n k).fraction = some [] from hnil] at hzero
    exact hk.ne hzero
  signed := by
    intro _
    rw [coefficient_pointAmong, Ne, apply_eq_zero_iff]
    omega
  first := by
    right
    rw [coefficient_pointAmong, natAbs_apply, digits_pointAmong]
    exact (Digits.pow_le_of_toDigits (by omega)).1
  last := by
    right
    rw [coefficient_pointAmong, Sign.ten_dvd_apply_iff]
    omega

/-! ### Zeros in front of the digits -/

/-- The digits of a number behind a point and zeros. -/
def zerosInFront (s : Sign) (n k : Nat) : Plain where
  sign := s
  whole := ['0']
  fraction := some (List.replicate (k - (Nat.toDigits 10 n).length) '0' ++ Nat.toDigits 10 n)
  exponent := none
  ne_nil := by simp
  isDigits := by
    intro c hc
    rw [Option.getD_some, List.mem_append, List.mem_append] at hc
    rcases hc with hz | hz | hd
    · exact isDigit_of_mem_zeros (k := 1) hz
    · exact isDigit_of_mem_zeros hz
    · exact Digits.isDigit_of_mem_toDigits hd

theorem chars_zerosInFront (hk : 0 < k) (hle : (Nat.toDigits 10 n).length ≤ k) :
    (zerosInFront s n k).chars = s.chars ++ positional (Nat.toDigits 10 n) k := by
  simp [chars, body, tail, zerosInFront, positional, hk.ne', hle.not_gt]

theorem places_zerosInFront (hle : (Nat.toDigits 10 n).length ≤ k) :
    (zerosInFront s n k).places = k := by
  simp only [places, zerosInFront, Option.getD_some, List.length_append, List.length_replicate]
  omega

theorem coefficient_zerosInFront : (zerosInFront s n k).coefficient = s.apply n := by
  have hdigits : (zerosInFront s n k).digits
      = ['0'] ++ List.replicate (k - (Nat.toDigits 10 n).length) '0' ++ Nat.toDigits 10 n :=
    (List.append_assoc _ _ _).symm
  have hzero : Nat.ofDigitChars 10 ['0'] 0 = 0 := rfl
  rw [coefficient, hdigits, Nat.ofDigitChars_append, Nat.ofDigitChars_append, hzero,
    Nat.ofDigitChars_replicate_zero, Nat.mul_zero, Nat.ofDigitChars_ten_toDigits]
  rfl

theorem tight_zerosInFront (hs : s ≠ .plus) (hn : n % 10 ≠ 0) : (zerosInFront s n k).Tight where
  sign_ne_plus := hs
  exponent_eq_none := rfl
  whole_ne_nil := by simp [zerosInFront]
  fraction_ne_nil := by simp [zerosInFront, Nat.toDigits_ne_nil]
  signed := by
    intro _
    rw [coefficient_zerosInFront, Ne, apply_eq_zero_iff]
    omega
  first := Or.inl rfl
  last := by
    right
    rw [coefficient_zerosInFront, Sign.ten_dvd_apply_iff]
    omega

/-! ### Every scale -/

/-- **An integer without a zero at its end is laid out as a tight literal of its number.** -/
theorem exists_tight_positional (hs : s ≠ .plus) (hn : n % 10 ≠ 0) (scale : Int) :
    ∃ p : Plain, p.Tight ∧ p.chars = s.chars ++ positional (Nat.toDigits 10 n) scale ∧
      p.value = (s.apply n : ℤ) * (10 : ℚ) ^ (-scale) := by
  by_cases hscale : scale ≤ 0
  · obtain ⟨k, rfl⟩ : ∃ k : Nat, scale = -k := ⟨(-scale).toNat, by omega⟩
    refine ⟨zerosBehind s n k, tight_zerosBehind hs (by omega), chars_zerosBehind, ?_⟩
    have hplaces : (zerosBehind s n k).places = 0 := rfl
    rw [value_of_exponent_none rfl, coefficient_zerosBehind, hplaces, Sign.cast_apply,
      Sign.cast_apply, neg_neg, zpow_natCast]
    push_cast
    ring
  · obtain ⟨k, rfl⟩ : ∃ k : Nat, scale = k := ⟨scale.toNat, by omega⟩
    have hk : 0 < k := by omega
    by_cases hlt : k < (Nat.toDigits 10 n).length
    · refine ⟨pointAmong s n k, tight_pointAmong hs hn hk hlt, chars_pointAmong hk hlt, ?_⟩
      rw [value_of_exponent_none rfl, coefficient_pointAmong, places_pointAmong hlt]
    · have hle := Nat.le_of_not_lt hlt
      refine ⟨zerosInFront s n k, tight_zerosInFront hs hn, chars_zerosInFront hk hle, ?_⟩
      rw [value_of_exponent_none rfl, coefficient_zerosInFront, places_zerosInFront hle]

end Plain

theorem length_positional_le (ds : List Char) (scale : Int) :
    (positional ds scale).length ≤ ds.length + scale.natAbs + 2 := by
  unfold positional
  split
  · simp
    omega
  · split
    · simp
      omega
    · simp
      omega

end AmountField.Decimal
