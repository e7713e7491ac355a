/-
Rewriting a numeral keeps its number and its leading zeros, so it can be undone.

The loops hold a numeral with its least significant digit first and without zeros behind the
last, which is the form that `Nat.digits` gives a number.  The invariant is therefore an
equation: the list is `Nat.digits` of some number.  `mulAdd_digits` says that one pass over the
digits turns the list of `n` into the list of `carry + factor * n`, and `renumber_digits` follows
by running over the old numeral.

A numeral is then its leading zeros and the digits of its number.  Rewriting keeps the first and
rewrites the second, and rewriting back finds the same two again: `transcode_transcode`.
-/
import AmountField.Base58.Radix
import Mathlib.Data.Nat.Digits.Lemmas
import Mathlib.Tactic.Linarith
import Mathlib.Tactic.Ring

namespace AmountField.Radix

/-- The number of digits of a base as a number. -/
def base (b : Radix) : Nat := b.size.toNat

theorem one_lt_base (b : Radix) : 1 < b.base := UInt32.le_iff_toNat_le.mp b.two_le

theorem base_le (b : Radix) : b.base ≤ 256 := UInt32.le_iff_toNat_le.mp b.le_byte

/-- The number that a numeral spells, its most significant digit first. -/
def value (b : Radix) (digits : List UInt8) : Nat :=
  Nat.ofDigits b.base (digits.reverse.map UInt8.toNat)

/-! ### The loops -/

theorem toNat_mod_toUInt8 (b : Radix) (t : UInt32) :
    (t % b.size).toUInt8.toNat = t.toNat % b.base := by
  have hlt : t.toNat % b.base < b.base := Nat.mod_lt _ (by have := b.one_lt_base; omega)
  have hle := b.base_le
  rw [UInt32.toNat_toUInt8, UInt32.toNat_mod, ← base, Nat.mod_eq_of_lt (by omega)]

theorem spill_digits (b : Radix) (carry : UInt32) :
    (b.spill carry).map UInt8.toNat = Nat.digits b.base carry.toNat := by
  induction carry using spill.induct b with
  | case1 => simp [spill]
  | case2 carry h ih =>
      have hpos : 0 < carry.toNat := by
        rw [Nat.pos_iff_ne_zero]
        exact fun hz => h (UInt32.toNat_inj.mp hz)
      rw [spill, if_neg h, List.map_cons, ih, toNat_mod_toUInt8, UInt32.toNat_div, ← base,
        Nat.digits_def' b.one_lt_base hpos]

/-- The last digit of a product with a carry, and what is carried on. -/
theorem digits_carry_add_mul {base factor n : Nat} (carry : Nat) (hbase : 1 < base)
    (hfactor : 0 < factor) (hn : n ≠ 0) :
    Nat.digits base (carry + factor * n)
      = (carry + n % base * factor) % base ::
        Nat.digits base ((carry + n % base * factor) / base + factor * (n / base)) := by
  have hpos : 0 < carry + factor * n := by
    have hprod := Nat.mul_pos hfactor (Nat.pos_of_ne_zero hn)
    omega
  have hsplit : carry + factor * n
      = base * (factor * (n / base)) + (carry + n % base * factor) := by
    conv_lhs => rw [← Nat.div_add_mod n base]
    ring
  rw [Nat.digits_def' hbase hpos, hsplit, Nat.mul_add_mod, Nat.mul_add_div (by omega),
    Nat.add_comm (factor * (n / base))]

/-- One pass over the digits of `n` gives the digits of `carry + factor * n`.  The carry stays
below 2 ^ 17 because a base has at least two digits, so no step leaves 32 bits. -/
theorem mulAdd_digits (b : Radix) {factor : UInt32} (hpos : 0 < factor.toNat)
    (hfactor : factor.toNat ≤ 256) {ds : List UInt8} :
    ∀ {n : Nat} {carry : UInt32}, carry.toNat < 2 ^ 17 →
      ds.map UInt8.toNat = Nat.digits b.base n →
      (b.mulAdd factor carry ds).map UInt8.toNat
        = Nat.digits b.base (carry.toNat + factor.toNat * n) := by
  have hone := b.one_lt_base
  induction ds with
  | nil =>
      intro n carry _ hn
      have hzero : n = 0 := Nat.digits_eq_nil_iff_eq_zero.mp hn.symm
      rw [mulAdd, spill_digits, hzero, Nat.mul_zero, Nat.add_zero]
  | cons d rest ih =>
      intro n carry hcarry hn
      have hne : n ≠ 0 := by
        intro hzero
        rw [hzero] at hn
        simp at hn
      rw [List.map_cons, Nat.digits_def' hone (Nat.pos_of_ne_zero hne)] at hn
      obtain ⟨hd, hrest⟩ := List.cons.inj hn
      have hbyte : d.toNat < 2 ^ 8 := d.toNat_lt
      have hprod : d.toNat * factor.toNat ≤ 255 * 256 :=
        Nat.mul_le_mul (by omega) hfactor
      have ht : (carry + d.toUInt32 * factor).toNat = carry.toNat + n % b.base * factor.toNat := by
        rw [UInt32.toNat_add, UInt32.toNat_mul, UInt8.toNat_toUInt32, ← hd]
        omega
      have hnext : ((carry + d.toUInt32 * factor) / b.size).toNat < 2 ^ 17 := by
        rw [UInt32.toNat_div, ht, ← hd]
        show _ / b.base < 2 ^ 17
        rw [Nat.div_lt_iff_lt_mul (by omega)]
        nlinarith
      have htail := ih hnext hrest
      rw [UInt32.toNat_div, ht] at htail
      rw [mulAdd, List.map_cons, toNat_mod_toUInt8, ht, htail,
        digits_carry_add_mul carry.toNat hone hpos hne]
      rfl

theorem value_append_singleton (b : Radix) (ds : List UInt8) (d : UInt8) :
    b.value (ds ++ [d]) = d.toNat + b.base * b.value ds := by
  simp [value, Nat.ofDigits_cons]

/-- The new numeral has the digits of the number of the old one. -/
theorem renumber_digits (old new : Radix) (digits : List UInt8) :
    (renumber old new digits).map UInt8.toNat = Nat.digits new.base (old.value digits) := by
  have hpos := old.one_lt_base
  induction digits using List.reverseRecOn with
  | nil => simp [renumber, value]
  | append_singleton ds d ih =>
      have hbyte : d.toNat < 2 ^ 8 := d.toNat_lt
      have hfactor : 0 < old.size.toNat := Nat.lt_trans Nat.zero_lt_one hpos
      have hcarry : d.toUInt32.toNat < 2 ^ 17 := by
        rw [UInt8.toNat_toUInt32]
        omega
      have hstep := mulAdd_digits new hfactor old.base_le hcarry ih
      rw [value_append_singleton]
      rw [UInt8.toNat_toUInt32] at hstep
      unfold renumber at hstep ⊢
      rw [List.foldl_append]
      exact hstep

theorem value_renumber (old new : Radix) (digits : List UInt8) :
    new.value (renumber old new digits).reverse = old.value digits := by
  rw [value, List.reverse_reverse, renumber_digits, Nat.ofDigits_digits]

theorem renumber_lt {old new : Radix} {digits : List UInt8} {d : UInt8}
    (h : d ∈ renumber old new digits) : d.toNat < new.base := by
  have hmem : d.toNat ∈ Nat.digits new.base (old.value digits) := by
    rw [← renumber_digits]
    exact List.mem_map_of_mem h
  exact Nat.digits_lt_base new.one_lt_base hmem

/-! ### Leading zeros -/

/-- The numeral does not begin with a zero. -/
def NoLeadingZero (ds : List UInt8) : Prop := ∀ d ∈ ds.head?, d ≠ 0

theorem takeWhile_zeros (ds : List UInt8) :
    ds.takeWhile (· = 0) = List.replicate (ds.takeWhile (· = 0)).length 0 := by
  apply List.eq_replicate_of_mem
  intro d hd
  simpa using List.all_eq_true.mp List.all_takeWhile d hd

theorem exists_zeros_append (ds : List UInt8) :
    ∃ k rest, ds = List.replicate k 0 ++ rest ∧ NoLeadingZero rest := by
  refine ⟨(ds.takeWhile (· = 0)).length, ds.dropWhile (· = 0), ?_, ?_⟩
  · rw [← takeWhile_zeros, List.takeWhile_append_dropWhile]
  · intro d hd
    have hhead := List.head?_dropWhile_not (· = 0) ds
    rw [Option.mem_def.mp hd] at hhead
    simpa using hhead

theorem takeWhile_zeros_append {k : Nat} {rest : List UInt8} (h : NoLeadingZero rest) :
    (List.replicate k 0 ++ rest).takeWhile (· = 0) = List.replicate k 0 := by
  have hnil : rest.takeWhile (· = 0) = [] := by
    cases rest with
    | nil => rfl
    | cons d ds =>
        have hd : d ≠ 0 := h d rfl
        simp [hd]
  rw [List.takeWhile_append_of_pos (by simp), hnil, List.append_nil]

theorem value_zeros_append (b : Radix) (k : Nat) (ds : List UInt8) :
    b.value (List.replicate k 0 ++ ds) = b.value ds := by
  simp [value, Nat.ofDigits_append_replicate_zero]

theorem value_dropWhile_zeros (b : Radix) (ds : List UInt8) :
    b.value (ds.dropWhile (· = 0)) = b.value ds := by
  conv_rhs => rw [← List.takeWhile_append_dropWhile (p := (· = 0)) (l := ds), takeWhile_zeros,
    value_zeros_append]

theorem renumber_noLeadingZero (old new : Radix) (digits : List UInt8) :
    NoLeadingZero (renumber old new digits).reverse := by
  intro d hd
  have hdigits := renumber_digits old new digits
  rw [List.head?_reverse, Option.mem_def] at hd
  have hlast : (Nat.digits new.base (old.value digits)).getLast? = some d.toNat := by
    rw [← hdigits, List.getLast?_map, hd]
    rfl
  intro heq
  subst heq
  have hne : Nat.digits new.base (old.value digits) ≠ [] := by
    intro hnil
    rw [hnil] at hlast
    cases hlast
  have hzero : old.value digits ≠ 0 := Nat.digits_ne_nil_iff_ne_zero.mp hne
  rw [List.getLast?_eq_getLast_of_ne_nil hne] at hlast
  exact Nat.getLast_digit_ne_zero new.base hzero (Option.some.inj hlast)

/-- A numeral without leading zeros is the one that its number is rewritten to. -/
theorem renumber_eq {old new : Radix} {digits ds : List UInt8}
    (hlt : ∀ d ∈ ds, d.toNat < new.base) (hhead : NoLeadingZero ds)
    (hvalue : old.value digits = new.value ds) : (renumber old new digits).reverse = ds := by
  have hlast : ∀ h : ds.reverse.map UInt8.toNat ≠ [],
      (ds.reverse.map UInt8.toNat).getLast h ≠ 0 := by
    intro h
    cases ds with
    | nil => simp at h
    | cons d rest =>
        have hd : d ≠ 0 := hhead d rfl
        simpa using fun hz => hd (UInt8.toNat_inj.mp hz)
  have hdigits : (renumber old new digits).map UInt8.toNat = ds.reverse.map UInt8.toNat := by
    rw [renumber_digits, hvalue, value, Nat.digits_ofDigits new.base new.one_lt_base _ ?_ hlast]
    intro l hl
    obtain ⟨d, hd, rfl⟩ := List.mem_map.mp hl
    exact hlt d (List.mem_reverse.mp hd)
  have hinj : Function.Injective UInt8.toNat := fun _ _ h => UInt8.toNat_inj.mp h
  rw [List.map_injective_iff.mpr hinj hdigits, List.reverse_reverse]

/-! ### There and back -/

theorem transcode_zeros_append (old new : Radix) {k : Nat} {rest : List UInt8}
    (h : NoLeadingZero rest) :
    transcode old new (List.replicate k 0 ++ rest)
      = List.replicate k 0 ++ (renumber old new (List.replicate k 0 ++ rest)).reverse := by
  rw [transcode, takeWhile_zeros_append h]

/-- **A numeral that is rewritten in another base and back is the same numeral.** -/
theorem transcode_transcode {old : Radix} (new : Radix) {digits : List UInt8}
    (hlt : ∀ d ∈ digits, d.toNat < old.base) :
    transcode new old (transcode old new digits) = digits := by
  obtain ⟨k, rest, rfl, hrest⟩ := exists_zeros_append digits
  have hvalue : new.value (List.replicate k 0
      ++ (renumber old new (List.replicate k 0 ++ rest)).reverse) = old.value rest := by
    rw [value_zeros_append, value_renumber, value_zeros_append]
  rw [transcode_zeros_append old new hrest,
    transcode_zeros_append new old (renumber_noLeadingZero old new _),
    renumber_eq (fun d hd => hlt d (List.mem_append_right _ hd)) hrest hvalue]

theorem transcode_lt {old new : Radix} {digits : List UInt8} {d : UInt8}
    (h : d ∈ transcode old new digits) : d.toNat < new.base := by
  rcases List.mem_append.mp h with hz | hd
  · have hzero : d = 0 := by simpa using List.all_eq_true.mp List.all_takeWhile d hz
    have hone := new.one_lt_base
    rw [hzero]
    show 0 < new.base
    omega
  · exact renumber_lt (List.mem_reverse.mp hd)

/-- A new numeral is longer by no more than the bases demand. -/
theorem length_transcode_le {old new : Radix} {digits : List UInt8} {extra : Nat}
    (hlt : ∀ d ∈ digits, d.toNat < old.base)
    (hextra : ∀ m ≤ digits.length, old.base ^ m ≤ new.base ^ (m + extra)) :
    (transcode old new digits).length ≤ digits.length + extra := by
  obtain ⟨k, rest, rfl, hrest⟩ := exists_zeros_append digits
  rw [List.length_append, List.length_replicate] at hextra
  have hvalue : old.value rest < old.base ^ rest.length := by
    have hbound := Nat.ofDigits_lt_base_pow_length (l := rest.reverse.map UInt8.toNat)
      old.one_lt_base (by
        intro l hl
        obtain ⟨d, hd, rfl⟩ := List.mem_map.mp hl
        exact hlt d (List.mem_append_right _ (List.mem_reverse.mp hd)))
    rwa [List.length_map, List.length_reverse] at hbound
  have hlength : (renumber old new (List.replicate k 0 ++ rest)).length ≤ rest.length + extra := by
    rw [← List.length_map UInt8.toNat, renumber_digits, value_zeros_append,
      Nat.digits_length_le_iff new.one_lt_base]
    exact Nat.lt_of_lt_of_le hvalue (hextra rest.length (by omega))
  rw [transcode_zeros_append old new hrest, List.length_append, List.length_append,
    List.length_replicate, List.length_reverse]
  omega

end AmountField.Radix
