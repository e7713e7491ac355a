/-
Native amounts.

A native amount is a whole number of drops.  Its text is read as a decimal without a point,
must be zero or lie between a millionth of a drop and 10 ^ 17 drops, must be whole, and must fit
in 64 bits; the tests are made in that order.  The field holds the number in its low 62 bits with
the sign bit set.  Decoding keeps those 62 bits and looks at nothing else.
-/
import AmountField.Decimal.Reading
import AmountField.ValueField

namespace AmountField.Native

/-- The largest number of drops. -/
def maxDrops : Nat := 100000000000000000

/-- The least amount that is not zero is one over this number. -/
def leastReciprocal : Nat := 1000000

/-- Whether a nonzero decimal lies in the range of native amounts. -/
def inRange (d : Decimal) : Bool :=
  !(d.times leastReciprocal).lt (.ofNat 1) && !(Decimal.ofNat maxDrops).lt d

/-- A decimal passes the tests of a native amount when it is zero or in range. -/
def Accepts (d : Decimal) : Prop := (d.isZero || inRange d) = true

/-- Whether a text has a decimal point. -/
def hasPoint (text : String) : Bool := text.toList.contains '.'

/-- The decimal that the text of a native amount spells, when it is in range. -/
def verify (text : String) : Except Error Decimal :=
  if hasPoint text then .error (.nativePoint text)
  else do
    match ← Decimal.Reading.ofText text with
    | .exact d => if d.isZero || inRange d then return d else throw (.nativeRange text)
    | .unbounded | .vanishing => throw (.nativeRange text)

/-- **What the tests come to**: a text has a point, is no decimal, is one that passes, or is out of
range. -/
theorem verify_cases (text : String) :
    (hasPoint text = true ∧ verify text = .error (.nativePoint text)) ∨
    (hasPoint text = false ∧
      ((∃ cause, Decimal.Reading.ofText text = .error cause ∧ verify text = .error cause) ∨
      (∃ d, Decimal.Reading.ofText text = .ok (.exact d) ∧ Accepts d ∧ verify text = .ok d) ∨
      (∃ r, Decimal.Reading.ofText text = .ok r ∧ (∀ d, r = .exact d → ¬ Accepts d) ∧
        verify text = .error (.nativeRange text)))) := by
  unfold verify
  cases hpoint : hasPoint text with
  | true => exact Or.inl ⟨rfl, rfl⟩
  | false =>
      refine Or.inr ⟨rfl, ?_⟩
      cases hread : Decimal.Reading.ofText text with
      | error cause => exact Or.inl ⟨cause, rfl, rfl⟩
      | ok r =>
          cases r with
          | exact d =>
              by_cases haccepts : Accepts d
              · exact Or.inr (Or.inl ⟨d, rfl, haccepts, if_pos haccepts⟩)
              · refine Or.inr (Or.inr ⟨_, rfl, ?_, if_neg haccepts⟩)
                intro d' hd
                cases hd
                exact haccepts
          | unbounded => exact Or.inr (Or.inr ⟨_, rfl, nofun, rfl⟩)
          | vanishing => exact Or.inr (Or.inr ⟨_, rfl, nofun, rfl⟩)

theorem accepts_of_verify {text : String} {d : Decimal} (h : verify text = .ok d) : Accepts d := by
  rcases verify_cases text with
    ⟨-, hv⟩ | ⟨-, ⟨_, -, hv⟩ | ⟨d', -, haccepts, hv⟩ | ⟨_, -, -, hv⟩⟩
  · cases hv.symm.trans h
  · cases hv.symm.trans h
  · cases hv.symm.trans h
    exact haccepts
  · cases hv.symm.trans h

/-- The number of drops that a decimal stands for, when it is a whole 64-bit number. -/
def drops (text : String) (d : Decimal) : Except Error UInt64 :=
  match d.whole? with
  | none => .error (.fractionalDrops text)
  | some k =>
    if k < 0 then .error (.unfitDrops text .invalidDigit)
    else if UInt64.size ≤ k then .error (.unfitDrops text .exponentTooLarge)
    else .ok (UInt64.ofNat k.toNat)

/-- A decimal in range is positive, and its first digit counts 10 ^ 17 at most. -/
theorem bounds_of_inRange {d : Decimal} (h : inRange d = true) : 0 < d.digits ∧ d.order ≤ 17 := by
  rw [inRange, Bool.and_eq_true, Bool.not_eq_true', Bool.not_eq_true'] at h
  obtain ⟨hleast, hgreatest⟩ := h
  have htimes : 0 < d.digits * (1000000 : Int) := Decimal.digits_pos_of_not_lt hleast (by decide)
  have hpos : 0 < d.digits := by omega
  exact ⟨hpos, Decimal.order_le_of_not_lt hgreatest (by decide) hpos⟩

/-- What passes the tests is a number of drops below the sign bit. -/
theorem lt_of_drops {text : String} {d : Decimal} {n : UInt64} (hd : Accepts d)
    (hn : drops text d = .ok n) : n < ValueField.signBit := by
  unfold drops at hn
  split at hn
  · cases hn
  · rename_i k hwhole
    have hk : k.toNat < Nat.pow 10 18 := by
      rcases (Bool.or_eq_true _ _).mp hd with hzero | hrange
      · rw [Decimal.whole?, if_pos hzero] at hwhole
        cases hwhole
        decide
      · obtain ⟨-, horder⟩ := bounds_of_inRange hrange
        have hlt : d.order < (18 : Nat) := Int.lt_of_le_of_lt horder (by decide)
        have habs := Decimal.natAbs_lt_of_whole? hwhole hlt
        omega
    split at hn
    · cases hn
    · split at hn <;> cases hn
      rw [UInt64.lt_iff_toNat_lt, UInt64.toNat_ofNat']
      exact Nat.lt_of_le_of_lt (Nat.mod_le _ _) (Nat.lt_trans hk (by decide))

/-! ### The field -/

/-- The 62 low bits of a field. -/
def dropsMask : UInt64 := 0x3FFFFFFFFFFFFFFF

/-- The field of a number of drops below the sign bit. -/
def ofDrops (drops : UInt64) (h : drops < ValueField.signBit) : NativeField where
  word := ValueField.signBit ||| drops
  leading_clear := ValueField.or_lt_leadingBit (by decide) (UInt64.lt_trans h (by decide))

/-- The number of drops in a word. -/
def dropsOfWord (w : UInt64) : Nat := (w &&& dropsMask).toNat

/-- The field of the text of a native amount. -/
def encode (text : String) : Except Error NativeField :=
  match hd : verify text with
  | .error cause => .error cause
  | .ok d =>
    match hn : drops text d with
    | .error cause => .error cause
    | .ok n => .ok (ofDrops n (lt_of_drops (accepts_of_verify hd) hn))

/-- The text of the number of drops in a word. -/
def decode (w : UInt64) : String := toString (dropsOfWord w)

end AmountField.Native
