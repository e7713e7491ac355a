/-
Every round of normalizing is exact.

The loops that normalize a decimal hold its digits as text and its exponent in a word of 64 bits.
`Stage` is what they pass through, one round after the other.  Beside what the loops hold, a stage
has two things that they do not: the exponent as it would be without a word to hold it, and the
digits that have been dropped.  `Exact` ties the three together, and `exact_of_stage` carries it
through every round: the word is the exponent, since a round begins only where the window has room
for it, and what is left of the digits and what has been dropped are together the number.  One more
fact is needed on the way.  A digit is dropped only where more than sixteen would be left, so no
zero is ever put behind a place from which a digit is gone.

Each round brings the number of digits nearer to sixteen, so the loops halt, and they halt at what
`fit?` gives (`exists_stage_of_fit?`).  Where a mantissa is made there, the digits are sixteen of
which the first is not zero, so neither reading them as a word nor narrowing the exponent can fail
(`Lossless`).
-/
import AmountField.Proofs.Decimal.Plain
import AmountField.Proofs.Narrowing

namespace AmountField.Issued

namespace Coefficient

/-- What the loops begin with: the digits of a decimal, and its scale negated. -/
def ofDecimal (d : Decimal) : Coefficient := ⟨d.digitChars.reverse, -d.scale⟩

/-- What the loops pass through: the coefficient, its exponent as an integer of any size, and the
digits dropped so far, the first of them first. -/
inductive Stage (w : Window) (d : Decimal) : Coefficient → Int → List Char → Prop
  | start (nonzero : d.digits ≠ 0) (scaled : d.scale ≠ Int64.minValue) :
      Stage w d (ofDecimal d) (-d.scale.toInt) []
  | pad {ds : List Char} {e : Int64} {n : Int} {dropped : List Char}
      (before : Stage w d ⟨ds, e⟩ n dropped) (short : ds.length < precision)
      (room : w.minExponent < e.toInt) : Stage w d ⟨'0' :: ds, e - 1⟩ (n - 1) dropped
  | cut {x : Char} {ds : List Char} {e : Int64} {n : Int} {dropped : List Char}
      (before : Stage w d ⟨x :: ds, e⟩ n dropped) (long : precision < (x :: ds).length)
      (room : e.toInt < w.maxExponent) : Stage w d ⟨ds, e + 1⟩ (n + 1) (dropped ++ [x])

/-! ### What a round keeps -/

/-- The number that digits spell, given least significant first. -/
def numberOf (ds : List Char) : Nat := Nat.ofDigitChars 10 ds.reverse 0

/-- A digit in front of others, all given least significant first, is the last of the number. -/
theorem numberOf_cons (x : Char) (ds : List Char) :
    numberOf (x :: ds) = 10 * numberOf ds + numberOf [x] := by
  rw [numberOf, List.reverse_cons, Digits.ofDigitChars_append]
  rfl

theorem numberOf_append_singleton (ds : List Char) (x : Char) :
    numberOf (ds ++ [x]) = 10 ^ ds.length * numberOf [x] + numberOf ds := by
  rw [numberOf, List.reverse_append, Digits.ofDigitChars_append, List.length_reverse]
  rfl

theorem ten_pow_mul_zpow (k : Nat) (n : Int) :
    (10 : ℚ) ^ k * (10 : ℚ) ^ (n - k) = (10 : ℚ) ^ n := by
  rw [← zpow_natCast, ← ten_zpow_add]
  congr 1
  ring

/-- The stage holds the number exactly. -/
structure Exact (d : Decimal) (c : Coefficient) (n : Int) (dropped : List Char) : Prop where
  /-- The word of the exponent is the exponent. -/
  exponent_eq : c.exponent.toInt = n
  isDigit : ∀ x ∈ c.digits, x.isDigit = true
  isDigit_dropped : ∀ x ∈ dropped, x.isDigit = true
  /-- The most significant digit is not zero. -/
  leading_ne : ∃ x, c.digits.getLast? = some x ∧ x ≠ '0'
  /-- Digits are only dropped where sixteen are left. -/
  full_of_dropped : dropped ≠ [] → precision ≤ c.digits.length
  /-- What is left and what has been dropped are the number. -/
  abs_value_eq : |d.value| = numberOf c.digits * (10 : ℚ) ^ n
    + numberOf dropped * (10 : ℚ) ^ (n - dropped.length)

section

variable {w : Window} {d : Decimal} {c : Coefficient} {ds dropped : List Char} {e : Int64} {n : Int}

theorem exact_start (nonzero : d.digits ≠ 0) (scaled : d.scale ≠ Int64.minValue) :
    Exact d (ofDecimal d) (-d.scale.toInt) [] := by
  have hl : -2 ^ 63 ≤ d.scale.toInt := d.scale.le_toInt
  have hne : d.scale.toInt ≠ -2 ^ 63 := fun heq => scaled (Int64.toInt_inj.mp heq)
  have hpos : 0 < d.digits.natAbs := by omega
  have hhead := Digits.head?_toDigits hpos
  have hlength : 0 < d.digitChars.length := Nat.length_toDigits_pos
  have hcons : d.digitChars ≠ [] := List.ne_nil_of_length_pos hlength
  have hnumber : numberOf (ofDecimal d).digits = d.digits.natAbs := by
    rw [ofDecimal, numberOf, List.reverse_reverse, Decimal.digitChars,
      Nat.ofDigitChars_ten_toDigits]
  refine ⟨Word.toInt_neg (by omega), ?_, by simp, ?_, fun hne => absurd rfl hne, ?_⟩
  · intro x hx
    exact Digits.isDigit_of_mem_toDigits (List.mem_reverse.mp hx)
  · refine ⟨d.digitChars.head hcons, ?_, ?_⟩
    · rw [ofDecimal, List.getLast?_reverse, List.head?_eq_some_head hcons]
    · intro hzero
      exact hhead (by rw [← hzero]; exact List.head?_eq_some_head hcons)
  · rw [hnumber, Decimal.abs_value]
    simp [numberOf]

/-- A round of padding begins with no digit dropped, and the zero makes up for the exponent. -/
theorem Exact.pad (h : Exact d ⟨ds, e⟩ n dropped) (short : ds.length < precision)
    (room : w.minExponent < e.toInt) : Exact d ⟨'0' :: ds, e - 1⟩ (n - 1) dropped := by
  have hleast := w.least_le
  have hnone : dropped = [] := by
    by_contra hne
    exact absurd (h.full_of_dropped hne) (Nat.not_le.mpr short)
  obtain ⟨x, hx, hzero⟩ := h.leading_ne
  subst hnone
  refine ⟨?_, ?_, h.isDigit_dropped, ⟨x, ?_, hzero⟩, fun hne => absurd rfl hne, ?_⟩
  · rw [Word.toInt_sub_one (by omega), h.exponent_eq]
  · exact List.forall_mem_cons.mpr ⟨by decide, h.isDigit⟩
  · rw [List.getLast?_cons, hx]
    rfl
  · have hvalue := h.abs_value_eq
    rw [show n = n - 1 + 1 by ring, ten_zpow_add] at hvalue
    rw [hvalue, numberOf_cons, show numberOf ['0'] = 0 from rfl, show numberOf [] = 0 from rfl]
    push_cast
    ring

/-- A round of cutting moves a digit from what is left to what has been dropped. -/
theorem Exact.cut {x : Char} (h : Exact d ⟨x :: ds, e⟩ n dropped)
    (long : precision < (x :: ds).length) (room : e.toInt < w.maxExponent) :
    Exact d ⟨ds, e + 1⟩ (n + 1) (dropped ++ [x]) := by
  have hgreatest := w.le_greatest
  rw [List.length_cons] at long
  have hne : ds ≠ [] := List.ne_nil_of_length_pos (by simp only [precision] at long; omega)
  obtain ⟨hx, hds⟩ := List.forall_mem_cons.mp h.isDigit
  obtain ⟨y, hy, hzero⟩ := h.leading_ne
  refine ⟨?_, hds, ?_, ⟨y, ?_, hzero⟩, fun _ => Nat.le_of_lt_succ long, ?_⟩
  · rw [Word.toInt_add_one (by omega), h.exponent_eq]
  · intro z hz
    rcases List.mem_append.mp hz with hold | hnew
    · exact h.isDigit_dropped z hold
    · rw [List.mem_singleton.mp hnew]
      exact hx
  · rw [← hy]
    exact (List.getLast?_cons_of_ne_nil hne).symm
  · have hshift : n + 1 - ((dropped ++ [x]).length : ℤ) = n - dropped.length := by
      rw [List.length_append, List.length_singleton]
      push_cast
      ring
    rw [h.abs_value_eq, numberOf_cons, hshift, numberOf_append_singleton, ten_zpow_add,
      ← ten_pow_mul_zpow dropped.length n]
    push_cast
    ring

/-- **Every stage holds the number exactly.** -/
theorem exact_of_stage (h : Stage w d c n dropped) : Exact d c n dropped := by
  induction h with
  | start nonzero scaled => exact exact_start nonzero scaled
  | pad _ short room ih => exact ih.pad short room
  | cut _ long room ih => exact ih.cut long room

theorem Exact.floor_eq (h : Exact d c n dropped) :
    numberOf c.digits = ⌊|d.value| / (10 : ℚ) ^ n⌋₊ := by
  have hpow := ten_zpow_pos n
  have hdigits : ∀ x ∈ dropped.reverse, x.isDigit = true := fun x hx =>
    h.isDigit_dropped x (List.mem_reverse.mp hx)
  have hlt : numberOf dropped < 10 ^ dropped.length := by
    have hbound := Digits.ofDigitChars_lt hdigits
    rwa [List.length_reverse] at hbound
  have hrest : numberOf dropped * (10 : ℚ) ^ (n - dropped.length) < (10 : ℚ) ^ n := by
    rw [← ten_pow_mul_zpow dropped.length n]
    exact mul_lt_mul_of_pos_right (by exact_mod_cast hlt) (ten_zpow_pos _)
  have hnonneg : 0 ≤ numberOf dropped * (10 : ℚ) ^ (n - dropped.length) :=
    mul_nonneg (Nat.cast_nonneg _) (ten_zpow_pos _).le
  symm
  rw [Nat.floor_eq_iff (div_nonneg (abs_nonneg _) hpow.le), le_div_iff₀ hpow, div_lt_iff₀ hpow,
    h.abs_value_eq]
  constructor <;> linarith

/-! ### The last round -/

/-- Neither loop goes on: the digits are sixteen, or the exponent is at a bound of the window. -/
def Halts (w : Window) (c : Coefficient) : Prop :=
  (c.digits.length < precision → c.exponent.toInt ≤ w.minExponent) ∧
    (precision < c.digits.length → w.maxExponent ≤ c.exponent.toInt)

/-- How far the number of digits is from sixteen. -/
def distance (c : Coefficient) : Nat :=
  (precision - c.digits.length) + (c.digits.length - precision)

/-- Where the loops do not halt, the window has room for another round of one of them. -/
theorem room_of_not_halts (h : ¬ Halts w c) :
    (c.digits.length < precision ∧ w.minExponent < c.exponent.toInt) ∨
      (precision < c.digits.length ∧ c.exponent.toInt < w.maxExponent) := by
  unfold Halts at h
  omega

/-- A stage at which the loops do not halt is followed by one that is nearer to sixteen digits. -/
theorem exists_round (h : Stage w d c n dropped) (hgoes : ¬ Halts w c) :
    ∃ c' n' dropped', Stage w d c' n' dropped' ∧ distance c' < distance c := by
  obtain ⟨ds, e⟩ := c
  rcases room_of_not_halts hgoes with ⟨hshort, hroom⟩ | ⟨hlong, hroom⟩
  · refine ⟨_, _, _, h.pad hshort hroom, ?_⟩
    simp only [distance, List.length_cons] at hshort ⊢
    omega
  · cases ds with
    | nil => exact absurd hlong (Nat.not_lt_zero _)
    | cons x rest =>
        refine ⟨_, _, _, h.cut hlong hroom, ?_⟩
        simp only [distance, List.length_cons] at hlong ⊢
        omega

theorem exists_halt_of_stage (h : Stage w d c n dropped) :
    ∃ c' n' dropped', Stage w d c' n' dropped' ∧ Halts w c' := by
  generalize hk : distance c = k
  induction k using Nat.strong_induction_on generalizing c n dropped with
  | _ k ih =>
      by_cases hhalts : Halts w c
      · exact ⟨c, n, dropped, h, hhalts⟩
      · obtain ⟨c', n', dropped', hstage, hnearer⟩ := exists_round h hhalts
        exact ih _ (by omega) hstage rfl

/-- The loops come to the same end from every stage. -/
theorem fit?_of_stage (h : Stage w d c n dropped) : c.fit? w = (ofDecimal d).fit? w := by
  induction h with
  | start => rfl
  | @pad ds e n dropped _ short room ih =>
      obtain ⟨k, hk⟩ : ∃ k, precision - ds.length = k + 1 := ⟨precision - ds.length - 1, by omega⟩
      have hk' : precision - ('0' :: ds).length = k := by
        rw [List.length_cons]
        omega
      rw [← ih]
      simp only [fit?, hk, hk', Coefficient.pad, if_pos room]
  | @cut x ds e n dropped _ long room ih =>
      have hbefore : precision - (x :: ds).length = 0 := by omega
      have hafter : precision - ds.length = 0 := by
        rw [List.length_cons] at long
        omega
      rw [← ih]
      simp only [fit?, hbefore, hafter, Coefficient.pad]
      rw [Coefficient.cut, if_neg (Nat.not_le.mpr long), if_neg (Int.not_le.mpr room)]

theorem fit?_of_halts (h : Halts w c) :
    c.fit? w = if c.digits.length ≤ precision then some c else none := by
  have hpad : c.pad w.minExponent (precision - c.digits.length) = c := by
    cases hmissing : precision - c.digits.length with
    | zero => rfl
    | succ k => rw [Coefficient.pad, if_neg (Int.not_lt.mpr (h.1 (by omega)))]
  unfold fit?
  simp only [hpad]
  by_cases hlong : precision < c.digits.length
  · obtain ⟨ds, e⟩ := c
    cases ds with
    | nil => exact absurd hlong (Nat.not_lt_zero _)
    | cons x rest =>
        rw [if_neg (Nat.not_le.mpr hlong), Coefficient.cut, if_neg (Nat.not_le.mpr hlong),
          if_pos (h.2 hlong)]
  · rw [if_pos (Nat.not_lt.mp hlong), cut_of_short (Nat.not_lt.mp hlong)]

/-! ### Mantissa and exponent -/

/-- The tests behind the loops are passed: the number is neither zero nor too large. -/
def Passes (w : Window) (c : Coefficient) : Prop :=
  precision ≤ c.digits.length ∧ w.minExponent ≤ c.exponent.toInt ∧ c.exponent.toInt ≤ w.maxExponent

/-- A whole number of 64 bits, as it is read from a text: a plus sign may stand in front of it. -/
def readWord (cs : List Char) : Except Decimal.Fault UInt64 :=
  match cs with
  | [] => .error .noDigits
  | ['+'] => .error .invalidDigit
  | '+' :: ds => (Decimal.readBounded (UInt64.size - 1) .exponentTooLarge 0 ds).map UInt64.ofNat
  | ds => (Decimal.readBounded (UInt64.size - 1) .exponentTooLarge 0 ds).map UInt64.ofNat

theorem readWord_digits {ds : List Char} (hne : ds ≠ []) (h : ∀ x ∈ ds, x.isDigit = true)
    (hlt : Nat.ofDigitChars 10 ds 0 < UInt64.size) :
    readWord ds = .ok (UInt64.ofNat (Nat.ofDigitChars 10 ds 0)) := by
  have hread : Decimal.readBounded (UInt64.size - 1) .exponentTooLarge 0 ds
      = .ok (Nat.ofDigitChars 10 ds 0) := by
    rw [Decimal.readBounded_digits h 0 (Nat.zero_le _), if_pos (Nat.le_sub_one_of_lt hlt)]
  unfold readWord
  split
  · exact absurd rfl hne
  · exact absurd (h '+' (by simp)) (by decide)
  · exact absurd (h '+' (by simp)) (by decide)
  · rw [hread]
    rfl

/-- Nothing is lost where digits become a mantissa and the exponent is narrowed. -/
structure Lossless (w : Window) (c : Coefficient) : Prop where
  length_eq : c.digits.length = 16
  isDigit : ∀ x ∈ c.digits, x.isDigit = true
  /-- The first digit, which is the last of the list, is not zero. -/
  leading_ne : c.digits.getLast? ≠ some '0'
  readWord_eq : readWord c.digits.reverse = .ok (UInt64.ofNat c.mantissa)
  toNat_mantissa : (UInt64.ofNat c.mantissa).toNat = c.mantissa
  least_le : w.minExponent ≤ c.exponent.toInt
  le_greatest : c.exponent.toInt ≤ w.maxExponent
  toInt_exponent : c.exponent.toInt32.toInt = c.exponent.toInt

/-- At a stage of at most sixteen digits at which the tests are passed, nothing is lost. -/
theorem lossless_of_stage (h : Stage w d c n dropped) (hlong : c.digits.length ≤ precision)
    (hpasses : Passes w c) : Lossless w c := by
  obtain ⟨hshort, hmin, hmax⟩ := hpasses
  have hleast := w.least_le
  have hgreatest := w.le_greatest
  have hexact := exact_of_stage h
  have hlength : c.digits.length = 16 := Nat.le_antisymm hlong hshort
  have hdigits : ∀ x ∈ c.digits.reverse, x.isDigit = true := fun x hx =>
    hexact.isDigit x (List.mem_reverse.mp hx)
  have hne : c.digits.reverse ≠ [] :=
    List.ne_nil_of_length_pos (by rw [List.length_reverse]; omega)
  have hlt : c.mantissa < UInt64.size := by
    have hbound := Digits.ofDigitChars_lt hdigits
    rw [List.length_reverse, hlength] at hbound
    exact Nat.lt_trans hbound (by decide)
  obtain ⟨x, hx, hzero⟩ := hexact.leading_ne
  refine ⟨hlength, hexact.isDigit, ?_, readWord_digits hne hdigits hlt,
    UInt64.toNat_ofNat_of_lt hlt, hmin, hmax, ?_⟩
  · rw [hx]
    exact fun heq => hzero (Option.some.inj heq)
  · rw [Int64.toInt_toInt32]
    apply Int.bmod_eq_of_le <;> omega

theorem exists_stage_of_fit? (nonzero : d.digits ≠ 0) (scaled : d.scale ≠ Int64.minValue) :
    ∃ c n dropped, Stage w d c n dropped ∧ Halts w c ∧
      (ofDecimal d).fit? w = if c.digits.length ≤ precision then some c else none := by
  obtain ⟨c, n, dropped, hstage, hhalts⟩ := exists_halt_of_stage (w := w) (.start nonzero scaled)
  exact ⟨c, n, dropped, hstage, hhalts, by rw [← fit?_of_stage hstage, fit?_of_halts hhalts]⟩

end

end Coefficient

namespace Canonical

open Coefficient (Stage Exact Halts Passes Lossless)

/-- The negation of a scale is refused for the least one only, and only where it is made. -/
theorem unboundedExponent_iff {w : Window} {d : Decimal} :
    ofDecimal w d = .error (.unboundedExponent d) ↔ d.digits ≠ 0 ∧ d.scale.toInt = -2 ^ 63 := by
  have hleast : d.scale = Int64.minValue ↔ d.scale.toInt = -2 ^ 63 := by
    rw [← Int64.toInt_inj]
    rfl
  rw [← hleast]
  constructor
  · intro herror
    refine ⟨?_, ?_⟩
    · intro hzero
      rw [ofDecimal, if_pos (by simp [Decimal.isZero, hzero])] at herror
      cases herror
    · by_contra hscale
      have hcause := cause_of_ofDecimal herror
      rw [overflowCause, if_neg hscale] at hcause
      cases hcause
  · rintro ⟨hzero, hscale⟩
    rw [ofDecimal, if_neg (by simp [Decimal.isZero, hzero]), if_pos hscale]

theorem ofDecimal_of_passes {w : Window} {d : Decimal} {c : Coefficient} (nonzero : d.digits ≠ 0)
    (scaled : d.scale ≠ Int64.minValue) (hfit : (Coefficient.ofDecimal d).fit? w = some c)
    (hpasses : Passes w c) :
    ofDecimal w d
      = .ok (.normalized (d.digits < 0) (UInt64.ofNat c.mantissa) c.exponent.toInt32) := by
  obtain ⟨hshort, hmin, hmax⟩ := hpasses
  unfold Coefficient.ofDecimal at hfit
  rw [ofDecimal, if_neg (by simp [Decimal.isZero, nonzero]), if_neg scaled, hfit]
  simp only
  rw [if_neg (by omega), if_neg (by omega)]

theorem passes_of_ofDecimal {w : Window} {d : Decimal} {negative : Bool} {m : UInt64} {e : Int32}
    (h : ofDecimal w d = .ok (.normalized negative m e)) :
    ∃ c, (Coefficient.ofDecimal d).fit? w = some c ∧ Passes w c := by
  unfold ofDecimal at h
  split at h
  · cases h
  · split at h
    · cases h
    · split at h
      · cases h
      · rename_i c hfit
        split at h
        · cases h
        · split at h
          · cases h
          · exact ⟨c, hfit, by omega, by omega, by omega⟩

/--
**Every round of normalizing is exact.**  The scale of a decimal that is not zero can be negated
unless it is the least one.  From there on no word of an exponent wraps around, and the digits that
are left at a stage are the number with its lowest digits truncated.  The loops halt, and where a
mantissa is made of what they leave, there are sixteen digits of which the first is not zero, so
that they are read as a word, and the exponent is narrowed as it stands.
-/
theorem rounds_exact (w : Window) (d : Decimal) :
    (ofDecimal w d = .error (.unboundedExponent d) ↔ d.digits ≠ 0 ∧ d.scale.toInt = -2 ^ 63) ∧
    (∀ c n dropped, Stage w d c n dropped →
      Exact d c n dropped ∧ -2 ^ 63 ≤ n ∧ n < 2 ^ 63 ∧
      c.mantissa = ⌊|d.value| / (10 : ℚ) ^ n⌋₊ ∧
      c.fit? w = (Coefficient.ofDecimal d).fit? w) ∧
    (d.digits ≠ 0 → d.scale.toInt ≠ -2 ^ 63 →
      ∃ c n dropped, Stage w d c n dropped ∧ Halts w c ∧
        ((Coefficient.ofDecimal d).fit? w
          = if c.digits.length ≤ precision then some c else none) ∧
        (c.digits.length ≤ precision → Passes w c → Lossless w c ∧
          ofDecimal w d
            = .ok (.normalized (d.digits < 0) (UInt64.ofNat c.mantissa) c.exponent.toInt32)) ∧
        (¬ (c.digits.length ≤ precision ∧ Passes w c) →
          ∀ negative m e, ofDecimal w d ≠ .ok (.normalized negative m e))) := by
  refine ⟨unboundedExponent_iff, ?_, ?_⟩
  · intro c n dropped hstage
    have hexact := Coefficient.exact_of_stage hstage
    have hword := hexact.exponent_eq
    have hl := c.exponent.le_toInt
    have hu := c.exponent.toInt_lt
    exact ⟨hexact, by omega, by omega, hexact.floor_eq, Coefficient.fit?_of_stage hstage⟩
  · intro nonzero hscale
    have scaled : d.scale ≠ Int64.minValue := fun heq => hscale (by rw [heq]; rfl)
    obtain ⟨c, n, dropped, hstage, hhalts, hfit⟩ :=
      Coefficient.exists_stage_of_fit? (w := w) nonzero scaled
    refine ⟨c, n, dropped, hstage, hhalts, hfit, ?_, ?_⟩
    · intro hlong hpasses
      rw [if_pos hlong] at hfit
      exact ⟨Coefficient.lossless_of_stage hstage hlong hpasses,
        ofDecimal_of_passes nonzero scaled hfit hpasses⟩
    · intro hnot negative m e hmade
      obtain ⟨c', hfit', hpasses⟩ := passes_of_ofDecimal hmade
      rw [hfit] at hfit'
      split at hfit'
      · cases hfit'
        exact hnot ⟨‹_›, hpasses⟩
      · cases hfit'

/-- Of seventeen digits the last is dropped in one round, and the loops halt behind it. -/
theorem rounds_exact_of_seventeen :
    (1234567890123456 : ℕ)
        = ⌊|(⟨-12345678901234567, 3⟩ : Decimal).value| / (10 : ℚ) ^ (-2 : ℤ)⌋₊ ∧
      ∃ c, Halts .full c ∧ Lossless .full c ∧
        ofDecimal .full ⟨-12345678901234567, 3⟩
          = .ok (.normalized true (UInt64.ofNat c.mantissa) c.exponent.toInt32) := by
  obtain ⟨-, hstages, hlast⟩ := rounds_exact .full ⟨-12345678901234567, 3⟩
  have hstart : Stage .full ⟨-12345678901234567, 3⟩
      ⟨"76543210987654321".toList, -3⟩ (-3) [] := .start (by decide) (by decide)
  have hcut : Stage .full ⟨-12345678901234567, 3⟩
      ⟨"6543210987654321".toList, -2⟩ (-2) ['7'] := .cut hstart (by decide) (by decide)
  refine ⟨(hstages _ _ _ hcut).2.2.2.1, ?_⟩
  obtain ⟨c, n, dropped, -, hhalts, hfit, hmade, -⟩ := hlast (by decide) (by decide)
  have hvalue : (Coefficient.ofDecimal ⟨-12345678901234567, 3⟩).fit? .full
      = some ⟨"6543210987654321".toList, -2⟩ := rfl
  rw [hvalue] at hfit
  split at hfit
  · cases hfit
    exact ⟨_, hhalts, hmade (by decide) ⟨by decide, by decide, by decide⟩⟩
  · cases hfit

end Canonical
end AmountField.Issued
