/-
Numbers spelled in decimal digits.

A run of digits is read from its most significant end, so the number of a concatenation is the
sum of the first number, moved by as many places as the second has digits, and the second.
Everything here follows from that: the run is below the power of ten of its length, its front
is a quotient and its back a remainder, zeros in front do not count, and a number printed
without leading zeros has one digit for each power of ten that it reaches.
-/
import Mathlib.Tactic.Linarith

namespace AmountField

theorem ne_of_isDigit {c d : Char} (hc : c.isDigit = true) (hd : d.isDigit = false) : c ≠ d := by
  intro heq
  subst heq
  rw [hc] at hd
  cases hd

namespace Digits

theorem isDigit_of_mem_toDigits {c : Char} {n : Nat} (h : c ∈ Nat.toDigits 10 n) :
    c.isDigit = true :=
  Nat.isDigit_of_mem_toDigits (by decide) (by decide) h

theorem ofDigitChars_append (front back : List Char) :
    Nat.ofDigitChars 10 (front ++ back) 0
      = 10 ^ back.length * Nat.ofDigitChars 10 front 0 + Nat.ofDigitChars 10 back 0 := by
  rw [Nat.ofDigitChars_append, Nat.ofDigitChars_eq_ofDigitChars_zero]

theorem le_ofDigitChars (ds : List Char) (n : Nat) : n ≤ Nat.ofDigitChars 10 ds n := by
  rw [Nat.ofDigitChars_eq_ofDigitChars_zero]
  have hpow : 1 ≤ 10 ^ ds.length := Nat.one_le_pow _ _ (by decide)
  calc n = 1 * n := (Nat.one_mul n).symm
    _ ≤ 10 ^ ds.length * n := Nat.mul_le_mul_right n hpow
    _ ≤ _ := Nat.le_add_right _ _

theorem ofDigitChars_lt {ds : List Char} (h : ∀ c ∈ ds, c.isDigit = true) :
    Nat.ofDigitChars 10 ds 0 < 10 ^ ds.length := by
  induction ds with
  | nil => decide
  | cons c rest ih =>
      have hrest := ih fun d hd => h d (by simp [hd])
      have hc : c.toNat - '0'.toNat ≤ 9 := by
        have hbounds := (Char.isDigit_iff_toNat.mp (h c (by simp))).2
        have hnine : '9'.toNat = '0'.toNat + 9 := rfl
        omega
      rw [Nat.ofDigitChars_cons, Nat.ofDigitChars_eq_ofDigitChars_zero, List.length_cons,
        Nat.pow_succ, Nat.mul_zero, Nat.zero_add]
      have hstep := Nat.mul_le_mul_left (10 ^ rest.length) hc
      omega

/-- The front of a run is the quotient by the power of ten of what is cut off. -/
theorem ofDigitChars_take {ds : List Char} (h : ∀ c ∈ ds, c.isDigit = true) (k : Nat) :
    Nat.ofDigitChars 10 (ds.take k) 0 = Nat.ofDigitChars 10 ds 0 / 10 ^ (ds.drop k).length := by
  have hback : Nat.ofDigitChars 10 (ds.drop k) 0 < 10 ^ (ds.drop k).length :=
    ofDigitChars_lt fun c hc => h c (List.mem_of_mem_drop hc)
  have hsplit : Nat.ofDigitChars 10 ds 0
      = 10 ^ (ds.drop k).length * Nat.ofDigitChars 10 (ds.take k) 0
        + Nat.ofDigitChars 10 (ds.drop k) 0 := by
    rw [← ofDigitChars_append, List.take_append_drop]
  rw [hsplit, Nat.mul_add_div (Nat.pow_pos (by decide)), Nat.div_eq_of_lt hback, Nat.add_zero]

/-- Runs of one length that spell one number are equal. -/
theorem eq_of_ofDigitChars_eq {ds es : List Char} (hd : ∀ c ∈ ds, c.isDigit = true)
    (he : ∀ c ∈ es, c.isDigit = true) (hlen : ds.length = es.length)
    (h : Nat.ofDigitChars 10 ds 0 = Nat.ofDigitChars 10 es 0) : ds = es := by
  induction ds generalizing es with
  | nil => exact (List.eq_nil_of_length_eq_zero hlen.symm).symm
  | cons c ds ih =>
      match es with
      | [] => simp at hlen
      | d :: es =>
          have hlen' : ds.length = es.length := by simpa using hlen
          have hds : ∀ x ∈ ds, x.isDigit = true := fun x hx => hd x (by simp [hx])
          have hes : ∀ x ∈ es, x.isDigit = true := fun x hx => he x (by simp [hx])
          have hfirst : Nat.ofDigitChars 10 [c] 0 = Nat.ofDigitChars 10 [d] 0 := by
            have hquotient := congrArg (· / 10 ^ es.length) h
            have hc := ofDigitChars_take hd 1
            have hd' := ofDigitChars_take he 1
            simp only [List.take_succ_cons, List.take_zero, List.drop_succ_cons, List.drop_zero,
              hlen'] at hc hd' hquotient
            rw [hc, hd', hquotient]
          have hrest : Nat.ofDigitChars 10 ds 0 = Nat.ofDigitChars 10 es 0 := by
            have hsplit := ofDigitChars_append [c] ds
            have hsplit' := ofDigitChars_append [d] es
            rw [List.singleton_append, hlen', hfirst] at hsplit
            rw [List.singleton_append] at hsplit'
            omega
          have hcd : c = d := by
            have hc := Char.isDigit_iff_toNat.mp (hd c (by simp))
            have hd' := Char.isDigit_iff_toNat.mp (he d (by simp))
            simp only [Nat.ofDigitChars_cons, Nat.ofDigitChars_nil] at hfirst
            exact Char.toNat_inj.mp (by omega)
          rw [hcd, ih hds hes hlen' hrest]

/-! ### Zeros in front -/

theorem ofDigitChars_dropWhile (ds : List Char) :
    Nat.ofDigitChars 10 (ds.dropWhile (· = '0')) 0 = Nat.ofDigitChars 10 ds 0 := by
  induction ds with
  | nil => rfl
  | cons c rest ih =>
      by_cases hc : c = '0'
      · rw [List.dropWhile_cons_of_pos (by simp [hc]), ih, hc]
        rfl
      · rw [List.dropWhile_cons_of_neg (by simp [hc])]

theorem ofDigitChars_eq_zero_iff {ds : List Char} (h : ∀ c ∈ ds, c.isDigit = true) :
    Nat.ofDigitChars 10 ds 0 = 0 ↔ ∀ c ∈ ds, c = '0' := by
  refine ⟨?_, ?_⟩
  · intro hzero
    induction ds with
    | nil => simp
    | cons c rest ih =>
        rw [Nat.ofDigitChars_cons, Nat.ofDigitChars_eq_ofDigitChars_zero] at hzero
        have hpow : 0 < 10 ^ rest.length := Nat.pow_pos (by decide)
        have hprod := (Nat.add_eq_zero_iff.mp hzero).1
        have hfirst : c.toNat ≤ '0'.toNat := by
          rcases Nat.mul_eq_zero.mp hprod with hp | hp <;> omega
        have hdigit := (Char.isDigit_iff_toNat.mp (h c (by simp))).1
        have hc : c = '0' := Char.toNat_inj.mp (Nat.le_antisymm hfirst hdigit)
        intro d hd
        rcases List.mem_cons.mp hd with rfl | hd
        · exact hc
        · exact ih (fun e he => h e (by simp [he])) (Nat.add_eq_zero_iff.mp hzero).2 d hd
  · intro hall
    rw [List.eq_replicate_of_mem hall, Nat.ofDigitChars_replicate_zero, Nat.mul_zero]

/-! ### Printed numbers -/

/-- A positive number lies between the powers of ten of its digits. -/
theorem pow_le_of_toDigits {n : Nat} (h : 0 < n) :
    10 ^ ((Nat.toDigits 10 n).length - 1) ≤ n ∧ n < 10 ^ (Nat.toDigits 10 n).length := by
  have hpos : 0 < (Nat.toDigits 10 n).length := Nat.length_toDigits_pos
  refine ⟨?_, (Nat.length_toDigits_le_iff (by decide) hpos).mp (Nat.le_refl _)⟩
  by_contra hlt
  by_cases hone : (Nat.toDigits 10 n).length = 1
  · rw [hone] at hlt
    simp at hlt
    omega
  · have hle := (Nat.length_toDigits_le_iff (b := 10) (n := n)
      (k := (Nat.toDigits 10 n).length - 1) (by decide) (by omega)).mpr (by omega)
    omega

theorem head?_toDigits {n : Nat} (h : 0 < n) : (Nat.toDigits 10 n).head? ≠ some '0' := by
  intro hhead
  obtain ⟨ds, hds⟩ := List.head?_eq_some_iff.mp hhead
  have hdigits : ∀ c ∈ ds, c.isDigit = true := by
    intro c hc
    exact isDigit_of_mem_toDigits (n := n) (by rw [hds]; exact List.mem_cons_of_mem _ hc)
  have hvalue : Nat.ofDigitChars 10 ds 0 = n := by
    rw [← Nat.ofDigitChars_ten_toDigits (n := n), hds]
    rfl
  -- what is behind the zero is the whole number, and it is a digit too short for that
  have hlt : n < 10 ^ ds.length := hvalue ▸ ofDigitChars_lt hdigits
  have hle := (pow_le_of_toDigits h).1
  rw [hds, List.length_cons, Nat.add_sub_cancel] at hle
  omega

end Digits

end AmountField
