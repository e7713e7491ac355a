/-
The carry of a numeral that is rewritten, round by round.

A digit is absorbed into the new numeral in one pass over it: multiply by the old base, add the
carry, write the remainder, carry the quotient on.  When no digit is ahead any more, what is left of
the carry is written behind them.  `Pass` is that computation between two rounds, and `Reached`
counts the rounds from the digit that is absorbed.

The invariant is `Sound`.  The digits are digits of the new base and the carry is a digit of the old
one, which is kept because (old - 1) + (new - 1) · old is one less than new · old.  Two bases that
fit in a byte have a product of at most 2 ^ 16, so from the invariant alone no operation of the next
round loses a bit (`Sound.exact`).  The written digits, the carry and the digits ahead are together
one number, and it stays the same.

A pass ends because the new numeral is longer than the one before it by no more than the places
that one digit of the old base can need.
-/
import AmountField.Proofs.Base58

namespace AmountField

namespace Radix

/-- The numeral of a number as the loops hold it, least significant digit first. -/
structure Holds (b : Radix) (number : Nat) (ds : List UInt8) : Prop where
  digit_lt : ∀ x ∈ ds, x.toNat < b.base
  last_ne_zero : ∀ x ∈ ds.getLast?, x ≠ 0
  value_eq : Nat.ofDigits b.base (ds.map UInt8.toNat) = number

theorem holds_renumber (old new : Radix) (digits : List UInt8) :
    new.Holds (old.value digits) (renumber old new digits) := by
  refine ⟨fun x hx => renumber_lt hx, ?_, ?_⟩
  · intro x hx
    exact renumber_noLeadingZero old new digits x (by rwa [List.head?_reverse])
  · rw [renumber_digits, Nat.ofDigits_digits]

theorem renumber_dropWhile_zeros (old new : Radix) (digits : List UInt8) :
    renumber old new (digits.dropWhile (· = 0)) = renumber old new digits := by
  have hinj : Function.Injective UInt8.toNat := fun _ _ h => UInt8.toNat_inj.mp h
  apply List.map_injective_iff.mpr hinj
  rw [renumber_digits, renumber_digits, value_dropWhile_zeros]

theorem length_renumber_append_le {old new : Radix} {front : List UInt8} {d : UInt8} {extra : Nat}
    (hd : d.toNat < old.base) (hextra : old.base ≤ new.base ^ extra) :
    (renumber old new (front ++ [d])).length ≤ (renumber old new front).length + extra := by
  have hfront : old.value front < new.base ^ (renumber old new front).length := by
    have hlength : (Nat.digits new.base (old.value front)).length
        = (renumber old new front).length := by
      rw [← renumber_digits, List.length_map]
    exact (Nat.digits_length_le_iff new.one_lt_base _).mp (Nat.le_of_eq hlength)
  rw [← List.length_map UInt8.toNat, renumber_digits, Nat.digits_length_le_iff new.one_lt_base,
    value_append_singleton]
  calc d.toNat + old.base * old.value front
      < old.base + old.base * old.value front := Nat.add_lt_add_right hd _
    _ = old.base * (old.value front + 1) := by ring
    _ ≤ old.base * new.base ^ (renumber old new front).length := Nat.mul_le_mul_left _ hfront
    _ ≤ new.base ^ extra * new.base ^ (renumber old new front).length :=
        Nat.mul_le_mul_right _ hextra
    _ = new.base ^ ((renumber old new front).length + extra) := by rw [← pow_add, Nat.add_comm]

/-- A pass over the digits of a numeral between two rounds: the digits that it has written, its
carry, and the digits ahead of it, all least significant first. -/
structure Pass where
  done : List UInt8
  carry : UInt32
  ahead : List UInt8
  deriving DecidableEq

namespace Pass

/-- The word that a round takes apart: the carry, and the next digit times the factor. -/
def sum (factor : UInt32) (p : Pass) : UInt32 :=
  match p.ahead with
  | [] => p.carry
  | d :: _ => p.carry + d.toUInt32 * factor

/-- What a round takes apart, as a number of any size. -/
def total (factor : Nat) (p : Pass) : Nat :=
  match p.ahead with
  | [] => p.carry.toNat
  | d :: _ => p.carry.toNat + d.toNat * factor

/-- One round, unless there is neither a digit ahead nor a carry. -/
def next? (b : Radix) (factor : UInt32) (p : Pass) : Option Pass :=
  if p.ahead = [] ∧ p.carry = 0 then none
  else some ⟨p.done ++ [(p.sum factor % b.size).toUInt8], p.sum factor / b.size, p.ahead.tail⟩

/-- The passes between the rounds in which `d` is absorbed into the numeral of `front`, with the
number of rounds that have been made. -/
inductive Reached (old new : Radix) (front : List UInt8) (d : UInt8) : Nat → Pass → Prop
  | start : Reached old new front d 0 ⟨[], d.toUInt32, renumber old new front⟩
  | next {rounds : Nat} {p p' : Pass} (before : Reached old new front d rounds p)
      (round : p.next? new old.size = some p') : Reached old new front d (rounds + 1) p'

/-! ### What a round keeps -/

/-- The digits and the carry are in range, and with the digits ahead they are the number. -/
structure Sound (old new : Radix) (number : Nat) (p : Pass) : Prop where
  done_lt : ∀ x ∈ p.done, x.toNat < new.base
  ahead_lt : ∀ x ∈ p.ahead, x.toNat < new.base
  carry_lt : p.carry.toNat < old.base
  value_eq : Nat.ofDigits new.base (p.done.map UInt8.toNat)
    + new.base ^ p.done.length
      * (p.carry.toNat + old.base * Nat.ofDigits new.base (p.ahead.map UInt8.toNat)) = number

/-- No operation of the next round loses a bit. -/
structure Exact (old new : Radix) (p : Pass) : Prop where
  product_eq : ∀ d ∈ p.ahead.head?, (d.toUInt32 * old.size).toNat = d.toNat * old.base
  sum_eq : (p.sum old.size).toNat = p.total old.base
  digit_eq : (p.sum old.size % new.size).toUInt8.toNat = p.total old.base % new.base
  carry_eq : (p.sum old.size / new.size).toNat = p.total old.base / new.base

variable {old new : Radix} {number : Nat} {front : List UInt8} {d : UInt8} {rounds extra : Nat}
  {p p' : Pass}

/-- What a round takes apart, with the digits behind it, is the carry with all the digits ahead. -/
theorem total_add (factor : Nat) (b : Radix) (p : Pass) :
    p.total factor + b.base * (factor * Nat.ofDigits b.base (p.ahead.tail.map UInt8.toNat))
      = p.carry.toNat + factor * Nat.ofDigits b.base (p.ahead.map UInt8.toNat) := by
  obtain ⟨done, carry, ahead⟩ := p
  cases ahead with
  | nil => simp [total]
  | cons x rest =>
      simp only [total, List.tail_cons, List.map_cons, Nat.ofDigits_cons]
      ring

/-- What a round takes apart has a quotient below the old base. -/
theorem Sound.total_lt (h : Sound old new number p) : p.total old.base < new.base * old.base := by
  have hcarry := h.carry_lt
  have hone := new.one_lt_base
  unfold total
  split
  · calc p.carry.toNat < old.base := hcarry
      _ ≤ new.base * old.base := Nat.le_mul_of_pos_left _ (by omega)
  · rename_i x rest hahead
    have hx : x.toNat + 1 ≤ new.base := h.ahead_lt x (by rw [hahead]; simp)
    calc p.carry.toNat + x.toNat * old.base
        < old.base + x.toNat * old.base := Nat.add_lt_add_right hcarry _
      _ = (x.toNat + 1) * old.base := by ring
      _ ≤ new.base * old.base := Nat.mul_le_mul_right _ hx

/-- **A round that begins in range loses no bit.** -/
theorem Sound.exact (h : Sound old new number p) : Exact old new p := by
  have hold := old.base_le
  have hnew := new.base_le
  have hproduct : ∀ x : UInt8, (x.toUInt32 * old.size).toNat = x.toNat * old.base := by
    intro x
    have hbyte : x.toNat < 2 ^ 8 := x.toNat_lt
    have hle : x.toNat * old.base ≤ 255 * 256 := Nat.mul_le_mul (by omega) hold
    rw [UInt32.toNat_mul, UInt8.toNat_toUInt32, ← base]
    exact Nat.mod_eq_of_lt (by omega)
  have hlt : p.total old.base < 2 ^ 32 := by
    have hle : new.base * old.base ≤ 256 * 256 := Nat.mul_le_mul hnew hold
    have htotal := h.total_lt
    omega
  have hsum : (p.sum old.size).toNat = p.total old.base := by
    unfold sum total at *
    split
    · rfl
    · rename_i x rest hahead
      rw [hahead] at hlt
      rw [UInt32.toNat_add, hproduct]
      exact Nat.mod_eq_of_lt hlt
  refine ⟨fun x _ => hproduct x, hsum, ?_, ?_⟩
  · rw [toNat_mod_toUInt8, hsum]
  · rw [UInt32.toNat_div, hsum]
    rfl

theorem eq_of_next? {b : Radix} {factor : UInt32} (h : p.next? b factor = some p') :
    p' = ⟨p.done ++ [(p.sum factor % b.size).toUInt8], p.sum factor / b.size, p.ahead.tail⟩ := by
  unfold next? at h
  split at h
  · cases h
  · exact (Option.some.inj h).symm

/-- **A round keeps the number, and the digits and the carry in range.** -/
theorem Sound.next (h : Sound old new number p) (round : p.next? new old.size = some p') :
    Sound old new number p' := by
  have hexact := h.exact
  have hpos : 0 < new.base := Nat.lt_trans Nat.zero_lt_one new.one_lt_base
  obtain rfl := eq_of_next? round
  refine ⟨?_, ?_, ?_, ?_⟩
  · intro x hx
    rcases List.mem_append.mp hx with hold | hwritten
    · exact h.done_lt x hold
    · rw [List.mem_singleton.mp hwritten, hexact.digit_eq]
      exact Nat.mod_lt _ hpos
  · intro x hx
    exact h.ahead_lt x (List.mem_of_mem_tail hx)
  · simp only
    rw [hexact.carry_eq, Nat.div_lt_iff_lt_mul hpos, Nat.mul_comm]
    exact h.total_lt
  · have hstep := total_add old.base new p
    have hsplit := Nat.mod_add_div (p.total old.base) new.base
    simp only
    rw [List.map_append, Nat.ofDigits_append, List.length_append, List.length_map,
      List.map_singleton, List.length_singleton, hexact.digit_eq, hexact.carry_eq,
      Nat.ofDigits_singleton, ← h.value_eq, ← hstep]
    conv_rhs => rw [← hsplit]
    ring

/-- **Every round begins in range.** -/
theorem sound_of_reached (hd : d.toNat < old.base) (h : Reached old new front d rounds p) :
    Sound old new (old.value (front ++ [d])) p := by
  induction h with
  | start =>
      have hholds := holds_renumber old new front
      refine ⟨by simp, hholds.digit_lt, by rwa [UInt8.toNat_toUInt32], ?_⟩
      rw [hholds.value_eq, value_append_singleton, UInt8.toNat_toUInt32]
      simp
  | next _ round ih => exact ih.next round

/-! ### The last round -/

/-- The numeral that the loops make of a pass. -/
def result (b : Radix) (factor : UInt32) (p : Pass) : List UInt8 :=
  p.done ++ b.mulAdd factor p.carry p.ahead

theorem result_of_next? {b : Radix} {factor : UInt32} (h : p.next? b factor = some p') :
    p'.result b factor = p.result b factor := by
  have hgoes : ¬ (p.ahead = [] ∧ p.carry = 0) := by
    intro hend
    rw [next?, if_pos hend] at h
    cases h
  obtain rfl := eq_of_next? h
  obtain ⟨done, carry, ahead⟩ := p
  cases ahead with
  | nil =>
      have hcarry : carry ≠ 0 := fun hzero => hgoes ⟨rfl, hzero⟩
      simp only [result, sum, mulAdd, List.tail_nil, List.append_assoc]
      conv_rhs => rw [spill, if_neg hcarry]
      rfl
  | cons x rest =>
      simp only [result, sum, mulAdd, List.tail_cons, List.append_assoc]
      rfl

theorem result_of_end {b : Radix} {factor : UInt32} (h : p.next? b factor = none) :
    p.result b factor = p.done := by
  have hend : p.ahead = [] ∧ p.carry = 0 := by
    by_contra hgoes
    rw [next?, if_neg hgoes] at h
    cases h
  rw [result, hend.1, hend.2, mulAdd, spill, if_pos rfl, List.append_nil]

/-- Every pass leads to the numeral of all the digits. -/
theorem result_of_reached (h : Reached old new front d rounds p) :
    p.result new old.size = renumber old new (front ++ [d]) := by
  induction h with
  | start =>
      unfold renumber result
      rw [List.foldl_append]
      rfl
  | next _ round ih => rw [result_of_next? round, ih]

theorem length_done (h : Reached old new front d rounds p) : p.done.length = rounds := by
  induction h with
  | start => rfl
  | next _ round ih =>
      obtain rfl := eq_of_next? round
      rw [List.length_append, List.length_singleton, ih]

/-- The rounds over the digits of the numeral come first. -/
theorem ahead_eq_drop (h : Reached old new front d rounds p) :
    p.ahead = (renumber old new front).drop rounds := by
  induction h with
  | start => rfl
  | next _ round ih =>
      obtain rfl := eq_of_next? round
      rw [ih, List.tail_drop]

theorem rounds_le_length (h : Reached old new front d rounds p) :
    rounds ≤ (renumber old new (front ++ [d])).length := by
  rw [← result_of_reached h, result, List.length_append, length_done h]
  exact Nat.le_add_right _ _

/-- Behind the digits of the numeral there are no more rounds than places that can be needed. -/
theorem rounds_le (hd : d.toNat < old.base) (hextra : old.base ≤ new.base ^ extra)
    (h : Reached old new front d rounds p) :
    rounds ≤ (renumber old new front).length + extra :=
  Nat.le_trans (rounds_le_length h) (length_renumber_append_le hd hextra)

/-- The digits of the numeral that are not yet written become fewer until the pass ends. -/
theorem exists_end_of_reached {left : Nat} (h : Reached old new front d rounds p)
    (hleft : rounds + left = (renumber old new (front ++ [d])).length) :
    ∃ rounds' p', Reached old new front d rounds' p' ∧ p'.next? new old.size = none := by
  induction left generalizing rounds p with
  | zero =>
      cases hnext : p.next? new old.size with
      | none => exact ⟨rounds, p, h, hnext⟩
      | some p' =>
          have hmore := rounds_le_length (h.next hnext)
          omega
  | succ left ih =>
      cases hnext : p.next? new old.size with
      | none => exact ⟨rounds, p, h, hnext⟩
      | some p' => exact ih (h.next hnext) (by omega)

/-- **A pass comes to an end, and there it has written the numeral of all the digits.** -/
theorem exists_end (old new : Radix) (front : List UInt8) (d : UInt8) :
    ∃ rounds p, Reached old new front d rounds p ∧ p.next? new old.size = none ∧
      p.done = renumber old new (front ++ [d]) := by
  obtain ⟨rounds, p, h, hend⟩ := exists_end_of_reached .start (Nat.zero_add _)
  exact ⟨rounds, p, h, hend, by rw [← result_of_end hend, result_of_reached h]⟩

/-- What holds while one digit is absorbed: the numeral before it, each round, and the end. -/
structure Absorbs (old new : Radix) (front : List UInt8) (d : UInt8) (extra : Nat) : Prop where
  holds : new.Holds (old.value front) (renumber old new front)
  sound : ∀ rounds p, Reached old new front d rounds p →
    Sound old new (old.value (front ++ [d])) p
  exact : ∀ rounds p, Reached old new front d rounds p → Exact old new p
  ahead_eq : ∀ rounds p, Reached old new front d rounds p →
    p.ahead = (renumber old new front).drop rounds
  rounds_le : ∀ rounds p, Reached old new front d rounds p →
    rounds ≤ (renumber old new front).length + extra
  exists_end : ∃ rounds p, Reached old new front d rounds p ∧ p.next? new old.size = none ∧
    p.done = renumber old new (front ++ [d])

theorem absorbs (front : List UInt8) (hd : d.toNat < old.base)
    (hextra : old.base ≤ new.base ^ extra) : Absorbs old new front d extra where
  holds := holds_renumber old new front
  sound _ _ h := sound_of_reached hd h
  exact _ _ h := (sound_of_reached hd h).exact
  ahead_eq _ _ h := ahead_eq_drop h
  rounds_le _ _ h := Pass.rounds_le hd hextra h
  exists_end := Pass.exists_end old new front d

end Pass
end Radix

namespace Base58

open Radix (renumber transcode Pass)

/-- On the base of bytes the operations of a round are a shift, a mask and a shift. -/
theorem byteRadix_words (t : UInt32) :
    t * byteRadix.size = t <<< 8 ∧ t % byteRadix.size = t &&& 0xFF ∧
      t / byteRadix.size = t >>> 8 := by
  have ht : t.toNat < 2 ^ 32 := t.toNat_lt
  refine ⟨?_, ?_, ?_⟩ <;> apply UInt32.toNat_inj.mp
  · rw [UInt32.toNat_mul, UInt32.toNat_shiftLeft]
    show t.toNat * 256 % 2 ^ 32 = t.toNat <<< 8 % 2 ^ 32
    rw [Nat.shiftLeft_eq]
  · rw [UInt32.toNat_mod, UInt32.toNat_and]
    exact (Nat.and_two_pow_sub_one_eq_mod t.toNat 8).symm
  · rw [UInt32.toNat_div, UInt32.toNat_shiftRight]
    exact (Nat.shiftRight_eq_div_pow t.toNat 8).symm

theorem toNat_lt_of_digit? {c : Char} {d : UInt8} (h : digit? c = some d) : d.toNat < 58 :=
  (digit?_eq_some_iff.mp h).2

/--
**The carries of base 58 stay in range, and the numerals stay normalized.**  After any bytes, and
after any letters, the new numeral is the one of their number.  While the next byte or letter is
absorbed, the carry is at most 255 or 57, the digits are in range and no operation loses a bit; at
most two digits, or one, are written behind the last.  So every digit of a text has its letter.
-/
theorem carries_in_range :
    (∀ (front : List UInt8) (byte : UInt8),
      Pass.Absorbs byteRadix radix front byte 2 ∧
      ∀ rounds p, Pass.Reached byteRadix radix front byte rounds p →
        p.carry.toNat ≤ 255 ∧ ∀ x ∈ p.done ++ p.ahead, x.toNat < 58) ∧
    (∀ (front : List UInt8) (c : Char) (d : UInt8), digit? c = some d →
      Pass.Absorbs radix byteRadix front d 1 ∧
      ∀ rounds p, Pass.Reached radix byteRadix front d rounds p → p.carry.toNat ≤ 57) ∧
    (∀ bytes : List UInt8,
      renumber byteRadix radix (bytes.dropWhile (· = 0)) = renumber byteRadix radix bytes ∧
      ∀ x ∈ transcode byteRadix radix bytes, x.toNat < alphabet.length) ∧
    (∀ t : UInt32, t * byteRadix.size = t <<< 8 ∧ t % byteRadix.size = t &&& 0xFF ∧
      t / byteRadix.size = t >>> 8) := by
  refine ⟨?_, ?_, ?_, byteRadix_words⟩
  · intro front byte
    have habsorbs : Pass.Absorbs byteRadix radix front byte 2 :=
      Pass.absorbs front (toNat_lt_byteRadix byte) (by decide)
    refine ⟨habsorbs, ?_⟩
    intro rounds p h
    have hsound := habsorbs.sound rounds p h
    refine ⟨Nat.le_of_lt_succ hsound.carry_lt, ?_⟩
    intro x hx
    rcases List.mem_append.mp hx with hdone | hahead
    · exact hsound.done_lt x hdone
    · exact hsound.ahead_lt x hahead
  · intro front c d hd
    have habsorbs : Pass.Absorbs radix byteRadix front d 1 :=
      Pass.absorbs front (toNat_lt_of_digit? hd) (by decide)
    exact ⟨habsorbs, fun rounds p h => Nat.le_of_lt_succ (habsorbs.sound rounds p h).carry_lt⟩
  · intro bytes
    exact ⟨Radix.renumber_dropWhile_zeros byteRadix radix bytes, fun x hx => Radix.transcode_lt hx⟩

/-- A byte of 255 behind the digit 23 writes 53 and carries 105 on; a letter `z` behind the byte 57
writes 35 and carries 13 on. -/
theorem carries_in_range_of_two :
    (∃ p, Pass.Reached byteRadix radix [23] 255 1 p ∧ p.carry.toNat = 105 ∧ p.carry.toNat ≤ 255) ∧
      digit? 'z' = some 57 ∧
      ∃ p, Pass.Reached radix byteRadix [57] 57 1 p ∧ p.carry.toNat = 13 ∧ p.carry.toNat ≤ 57 := by
  have hbytes : Pass.Reached byteRadix radix [23] 255 1 ⟨[53], 105, []⟩ :=
    .next .start (by decide +kernel)
  have hletters : Pass.Reached radix byteRadix [57] 57 1 ⟨[35], 13, []⟩ :=
    .next .start (by decide +kernel)
  obtain ⟨hencode, hdecode, -⟩ := carries_in_range
  have hz : digit? 'z' = some 57 := by decide
  exact ⟨⟨_, hbytes, rfl, ((hencode [23] 255).2 _ _ hbytes).1⟩, hz, _, hletters, rfl,
    (hdecode [57] 'z' 57 hz).2 _ _ hletters⟩

end Base58
end AmountField
