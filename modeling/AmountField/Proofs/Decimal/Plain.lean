/-
Plain literals, and what they are read as.

A plain literal is what `[+-]?(digits[.digits?] | .digits)([eE][+-]?digits)?` matches: no
separators, and an exponent of any size.  `Plain` is its syntax tree, from which both the text
and the number that it spells can be computed, so a statement about every plain literal is a
statement about every tree.

`ofText_plain` says that no plain literal is refused.  If its scale is a 64-bit integer, the
exact reading succeeds with its digits and its scale.  If not, the exact reading fails, in the
exponent or in the scale, and the text is looked at a second time for an exponent of nineteen
digits.  A literal of fewer than 2 ^ 62 bytes has less than 2 ^ 62 places, so only an exponent
beyond 2 ^ 62, which has nineteen digits, can push its scale out of range: the second look never
misses.
-/
import AmountField.Decimal.Reading
import AmountField.Proofs.Digits
import Mathlib.Data.Rat.Floor

namespace AmountField.Decimal

/-! ### The grammar -/

/-- A sign as it may stand in front of digits. -/
inductive Sign where
  | none
  | plus
  | minus
  deriving DecidableEq

namespace Sign

/-- The characters of a sign. -/
def chars : Sign → List Char
  | none => []
  | plus => ['+']
  | minus => ['-']

/-- Whether this is a minus. -/
def isMinus : Sign → Bool
  | minus => true
  | _ => false

/-- The number of a magnitude under a sign. -/
def apply (s : Sign) (n : Nat) : Int := if s.isMinus then -(n : Int) else n

end Sign

/-- The exponent of a plain literal. -/
structure PlainExponent where
  mark : Char
  sign : Sign
  digits : List Char
  isMark : isExponentMark mark = true
  ne_nil : digits ≠ []
  isDigits : ∀ c ∈ digits, c.isDigit = true

namespace PlainExponent

/-- The characters behind the mark. -/
def chars (x : PlainExponent) : List Char := x.sign.chars ++ x.digits

/-- The power of ten. -/
def power (x : PlainExponent) : Int := x.sign.apply (Nat.ofDigitChars 10 x.digits 0)

end PlainExponent

/-- A plain literal. -/
structure Plain where
  sign : Sign
  /-- The digits in front of the point. -/
  whole : List Char
  /-- The digits behind the point, if there is a point. -/
  fraction : Option (List Char)
  /-- The exponent, if there is one. -/
  exponent : Option PlainExponent
  ne_nil : whole ++ fraction.getD [] ≠ []
  isDigits : ∀ c ∈ whole ++ fraction.getD [], c.isDigit = true

namespace Plain

/-- The digits of the base without the point. -/
def digits (p : Plain) : List Char := p.whole ++ p.fraction.getD []

/-- The base without its sign. -/
def body (p : Plain) : List Char :=
  p.whole ++ match p.fraction with
    | none => []
    | some ds => '.' :: ds

/-- The mark and what stands behind it. -/
def tail (p : Plain) : List Char :=
  match p.exponent with
  | none => []
  | some x => x.mark :: x.chars

/-- The characters of a literal. -/
def chars (p : Plain) : List Char := p.sign.chars ++ p.body ++ p.tail

/-- The text of a literal. -/
def text (p : Plain) : String := String.ofList p.chars

/-- The digits of the base as an integer with its sign. -/
def coefficient (p : Plain) : Int := p.sign.apply (Nat.ofDigitChars 10 p.digits 0)

/-- The number of digits behind the point. -/
def places (p : Plain) : Nat := (p.fraction.getD []).length

/-- The power of ten of the exponent. -/
def power (p : Plain) : Int :=
  match p.exponent with
  | none => 0
  | some x => x.power

/-- The number that a literal spells. -/
def value (p : Plain) : ℚ := p.coefficient * (10 : ℚ) ^ (p.power - p.places)

/-- Literals of less than 2 ^ 62 bytes. -/
def Short (p : Plain) : Prop := (octets p.text).length < 2 ^ 62

instance (p : Plain) : Decidable p.Short := Nat.decLt _ _

/-- What a literal is read as: its digits at its scale, or where a scale out of range leads. -/
def reading (p : Plain) : Reading :=
  let scale := p.places - p.power
  if fitsScale scale then .exact ⟨p.coefficient, Int64.ofInt scale⟩
  else if p.coefficient = 0 then .exact zero
  else if scale < 0 then .unbounded
  else .vanishing

end Plain

/-! ### Signs and digits -/

theorem splitSign_chars (s : Sign) {cs : List Char} (h : ∀ c ∈ cs.head?, c ≠ '+' ∧ c ≠ '-') :
    Text.splitSign (s.chars ++ cs) = (s.isMinus, cs) := by
  cases s with
  | plus => rfl
  | minus => rfl
  | none =>
      cases cs with
      | nil => rfl
      | cons c rest =>
          obtain ⟨hplus, hminus⟩ := h c rfl
          show Text.splitSign (c :: rest) = _
          unfold Text.splitSign
          split
          · exact absurd (List.cons.inj ‹_›).1 hplus
          · exact absurd (List.cons.inj ‹_›).1 hminus
          · rfl

theorem splitSign_digits (s : Sign) {ds : List Char} (h : ∀ c ∈ ds, c.isDigit = true) :
    Text.splitSign (s.chars ++ ds) = (s.isMinus, ds) := by
  apply splitSign_chars
  intro c hc
  have hdigit := h c (List.mem_of_mem_head? hc)
  exact ⟨ne_of_isDigit hdigit (by decide), ne_of_isDigit hdigit (by decide)⟩

theorem isExponentMark_e : isExponentMark 'e' = true := rfl

theorem isExponentMark_of_isDigit {c : Char} (h : c.isDigit = true) :
    isExponentMark c = false := by
  have he : c ≠ 'e' := ne_of_isDigit h (by decide)
  have hE : c ≠ 'E' := ne_of_isDigit h (by decide)
  simp [isExponentMark, he, hE]

/-- Digits are read onto a number until the limit is passed, and a number that passes it stays
above it. -/
theorem readBounded_digits {limit : Nat} {excess : Fault} {ds : List Char}
    (h : ∀ c ∈ ds, c.isDigit = true) :
    ∀ n, n ≤ limit → readBounded limit excess n ds
      = if Nat.ofDigitChars 10 ds n ≤ limit then .ok (Nat.ofDigitChars 10 ds n)
        else .error excess := by
  induction ds with
  | nil =>
      intro n hn
      rw [Nat.ofDigitChars_nil, if_pos hn]
      rfl
  | cons c rest ih =>
      intro n hn
      have hsplit : Nat.ofDigitChars 10 (c :: rest) n
          = Nat.ofDigitChars 10 rest (Nat.ofDigitChars 10 [c] n) := rfl
      unfold readBounded
      rw [if_pos (h c (by simp)), hsplit]
      simp only
      by_cases hlimit : limit < Nat.ofDigitChars 10 [c] n
      · have hle := Digits.le_ofDigitChars rest (Nat.ofDigitChars 10 [c] n)
        rw [if_pos hlimit, if_neg (by omega)]
      · rw [if_neg hlimit]
        exact ih (fun d hd => h d (by simp [hd])) _ (by omega)

/-- An exponent is read when it is a 128-bit integer, and is a fault otherwise. -/
theorem readExponent_chars (x : PlainExponent) :
    readExponent x.chars = .ok x.power ∨
      ((∃ fault, readExponent x.chars = .error fault) ∧ 2 ^ 127 ≤ x.power.natAbs) := by
  have hne : x.chars.isEmpty = false := by
    simp [PlainExponent.chars, x.ne_nil]
  have hds : x.digits.isEmpty = false := by simp [x.ne_nil]
  have hlimit : exponentLimit = 2 ^ 127 := by norm_num [exponentLimit]
  unfold readExponent
  rw [hne, PlainExponent.chars, splitSign_digits x.sign x.isDigits]
  simp only [hds, Bool.false_eq_true, if_false, PlainExponent.power, Sign.apply]
  cases x.sign.isMinus
  · simp only [Bool.false_eq_true, if_false]
    rw [readBounded_digits x.isDigits 0 (Nat.zero_le _)]
    split
    · exact Or.inl rfl
    · exact Or.inr ⟨⟨_, rfl⟩, by omega⟩
  · simp only [if_true]
    rw [readBounded_digits x.isDigits 0 (Nat.zero_le _)]
    split
    · exact Or.inl rfl
    · exact Or.inr ⟨⟨_, rfl⟩, by omega⟩

theorem readDigits_chars (s : Sign) {ds : List Char} (hne : ds ≠ [])
    (h : ∀ c ∈ ds, c.isDigit = true) :
    readDigits (s.chars ++ ds) = .ok (s.apply (Nat.ofDigitChars 10 ds 0)) := by
  have hempty : ds.isEmpty = false := by simp [hne]
  have hhead : ¬ ds.head? = some '_' := by
    intro hc
    exact ne_of_isDigit (h '_' (List.mem_of_mem_head? hc)) (by decide) rfl
  have hall : ds.all isDigitOrSeparator = true := by
    rw [List.all_eq_true]
    intro c hc
    simp [isDigitOrSeparator, h c hc]
  unfold readDigits
  rw [splitSign_digits s h]
  simp only [hempty, hhead, hall, List.filter_eq_self.mpr h, Bool.false_eq_true, if_false, if_true]
  rfl

theorem Sign.point_not_mem (s : Sign) : '.' ∉ s.chars := by
  cases s <;> decide

theorem point_not_mem_digits {ds : List Char} (h : ∀ c ∈ ds, c.isDigit = true) : '.' ∉ ds :=
  fun hmem => ne_of_isDigit (h '.' hmem) (by decide) rfl

theorem PlainExponent.point_not_mem (x : PlainExponent) : '.' ∉ x.mark :: x.chars := by
  intro hmem
  rcases List.mem_cons.mp hmem with hm | hchars
  · exact absurd (hm ▸ x.isMark) (by decide)
  · rcases List.mem_append.mp hchars with hs | hd
    · exact x.sign.point_not_mem hs
    · exact point_not_mem_digits x.isDigits hd

theorem fitsScale_iff {s : Int} : fitsScale s = true ↔ -2 ^ 63 ≤ s ∧ s ≤ 2 ^ 63 - 1 := by
  simp only [fitsScale, Bool.and_eq_true, decide_eq_true_eq,
    show Int64.minValue.toInt = -2 ^ 63 from rfl, show Int64.maxValue.toInt = 2 ^ 63 - 1 from rfl]

namespace Plain

/-! ### Taking a literal apart -/

theorem isDigit_or_point {p : Plain} {c : Char} (h : c ∈ p.body) : c.isDigit = true ∨ c = '.' := by
  rcases List.mem_append.mp h with hw | hf
  · exact Or.inl (p.isDigits c (List.mem_append_left _ hw))
  · cases hfrac : p.fraction with
    | none =>
        rw [hfrac] at hf
        simp at hf
    | some ds =>
        rw [hfrac] at hf
        rcases List.mem_cons.mp hf with hp | hd
        · exact Or.inr hp
        · exact Or.inl (p.isDigits c (List.mem_append_right _ (by rw [hfrac]; exact hd)))

theorem body_ne_nil (p : Plain) : p.body ≠ [] := by
  intro h
  obtain ⟨hw, hf⟩ := List.append_eq_nil_iff.mp h
  apply p.ne_nil
  cases hfrac : p.fraction with
  | none => simp [hw]
  | some ds =>
      rw [hfrac] at hf
      cases hf

theorem isExponentMark_of_mem_base (s : Sign) {p : Plain} {c : Char} (h : c ∈ s.chars ++ p.body) :
    isExponentMark c = false := by
  rcases List.mem_append.mp h with hs | hb
  · cases s <;> simp [Sign.chars] at hs <;> rw [hs] <;> decide
  · rcases isDigit_or_point hb with hd | rfl
    · exact isExponentMark_of_isDigit hd
    · decide

theorem point_not_mem_chars {p : Plain} (h : p.fraction = none) : '.' ∉ p.chars := by
  intro hmem
  rw [chars, body, h, List.append_nil, List.mem_append, List.mem_append] at hmem
  rcases hmem with (hs | hw) | ht
  · exact p.sign.point_not_mem hs
  · exact point_not_mem_digits (fun c hc => p.isDigits c (List.mem_append_left _ hc)) hw
  · unfold tail at ht
    cases hx : p.exponent with
    | none =>
        rw [hx] at ht
        cases ht
    | some x =>
        rw [hx] at ht
        exact x.point_not_mem ht

theorem splitFirst_mark (s : Sign) (p : Plain) :
    Text.splitFirst isExponentMark (s.chars ++ p.body ++ p.tail)
      = (s.chars ++ p.body, p.exponent.map PlainExponent.chars) := by
  unfold tail
  cases p.exponent with
  | none =>
      simp only [List.append_nil]
      exact Text.splitFirst_of_forall fun c hc => isExponentMark_of_mem_base s hc
  | some x =>
      exact Text.splitFirst_append (fun c hc => isExponentMark_of_mem_base s hc) x.isMark x.chars

theorem splitPoint_base (s : Sign) (p : Plain) :
    splitPoint (s.chars ++ p.body) = (s.chars ++ p.whole, p.fraction.getD []) := by
  have hfront : ∀ c ∈ s.chars ++ p.whole, decide (c = '.') = false := by
    intro c hc
    rw [decide_eq_false_iff_not]
    rcases List.mem_append.mp hc with hs | hw
    · cases s <;> simp [Sign.chars] at hs <;> rw [hs] <;> decide
    · exact ne_of_isDigit (p.isDigits c (List.mem_append_left _ hw)) (by decide)
  unfold splitPoint body
  cases p.fraction with
  | none =>
      simp only [List.append_nil]
      rw [Text.splitFirst_of_forall hfront]
  | some ds =>
      simp only
      rw [← List.append_assoc, Text.splitFirst_append hfront (by decide)]

theorem ofBase_eq (text : String) (p : Plain) :
    ofBase text (p.sign.chars ++ p.body) p.power
      = if fitsScale (p.places - p.power) then .ok ⟨p.coefficient, Int64.ofInt (p.places - p.power)⟩
        else .error (.scaleOverflow text) := by
  have hempty : (p.sign.chars ++ p.body).isEmpty = false := by simp [p.body_ne_nil]
  have hcount : (p.fraction.getD []).countP (· ≠ '_') = p.places := by
    apply List.countP_eq_length.mpr
    intro c hc
    rw [decide_eq_true_eq]
    exact ne_of_isDigit (p.isDigits c (List.mem_append_right _ hc)) (by decide)
  unfold ofBase
  rw [hempty, if_neg (by decide), splitPoint_base]
  simp only [hcount, List.append_assoc, readDigits_chars p.sign p.ne_nil p.isDigits]
  rfl

/-- The exact reading of a literal, which finds its scale out of range or else succeeds. -/
theorem ofText_eq (p : Plain) (h : p.places < 2 ^ 62) :
    (fitsScale (p.places - p.power) = true ∧
      Decimal.ofText p.text = .ok ⟨p.coefficient, Int64.ofInt (p.places - p.power)⟩) ∨
    (fitsScale (p.places - p.power) = false ∧ ∃ fault, Decimal.ofText p.text = .error fault) := by
  have hsplit : Decimal.ofText p.text
      = (readTail (p.exponent.map PlainExponent.chars)).bind
          (ofBase p.text (p.sign.chars ++ p.body)) := by
    unfold Decimal.ofText
    rw [text, String.toList_ofList, chars, splitFirst_mark]
  have hread : ∀ {e}, readTail (p.exponent.map PlainExponent.chars) = .ok e → e = p.power →
      Decimal.ofText p.text = ofBase p.text (p.sign.chars ++ p.body) p.power := by
    intro e he heq
    subst heq
    rw [hsplit, he]
    rfl
  have hexact : Decimal.ofText p.text = ofBase p.text (p.sign.chars ++ p.body) p.power →
      (fitsScale (p.places - p.power) = true ∧
        Decimal.ofText p.text = .ok ⟨p.coefficient, Int64.ofInt (p.places - p.power)⟩) ∨
      (fitsScale (p.places - p.power) = false ∧
        ∃ fault, Decimal.ofText p.text = .error fault) := by
    intro heq
    rw [heq, ofBase_eq]
    cases fitsScale (p.places - p.power)
    · exact Or.inr ⟨rfl, _, rfl⟩
    · exact Or.inl ⟨rfl, rfl⟩
  cases hx : p.exponent with
  | none =>
      have hpower : (0 : Int) = p.power := by simp [power, hx]
      exact hexact (hread (by rw [hx]; rfl) hpower)
  | some x =>
      have hpower : x.power = p.power := by simp [power, hx]
      rcases readExponent_chars x with hok | ⟨⟨fault, hfault⟩, hlarge⟩
      · exact hexact (hread (by rw [hx]; exact hok) hpower)
      · -- an exponent beyond 128 bits is a scale beyond 64 bits
        refine Or.inr ⟨?_, fault, ?_⟩
        · rw [← hpower, ← Bool.not_eq_true, fitsScale_iff]
          omega
        · rw [hsplit, hx]
          show (readExponent x.chars).bind _ = _
          rw [hfault]
          rfl

/-! ### The second look -/

theorem apply_eq_zero_iff (s : Sign) (n : Nat) : s.apply n = 0 ↔ n = 0 := by
  unfold Sign.apply
  split <;> omega

theorem natAbs_apply (s : Sign) (n : Nat) : (s.apply n).natAbs = n := by
  unfold Sign.apply
  split <;> omega

theorem natAbs_coefficient (p : Plain) :
    p.coefficient.natAbs = Nat.ofDigitChars 10 p.digits 0 :=
  natAbs_apply p.sign _

/-- A number of nineteen digits has them behind its leading zeros. -/
theorem isHuge_digits {ds : List Char} (hne : ds ≠ []) (h : ∀ c ∈ ds, c.isDigit = true)
    (hlarge : 10 ^ 18 ≤ Nat.ofDigitChars 10 ds 0) : Reading.isHuge ds = true := by
  have hdrop : ∀ c ∈ ds.dropWhile (· = '0'), c.isDigit = true := fun c hc =>
    h c ((List.dropWhile_sublist _).subset hc)
  have hlt := Digits.ofDigitChars_lt hdrop
  rw [Digits.ofDigitChars_dropWhile] at hlt
  have hlength : 18 < (ds.dropWhile (· = '0')).length :=
    (Nat.pow_lt_pow_iff_right (by decide : 1 < 10)).mp (Nat.lt_of_le_of_lt hlarge hlt)
  simp only [Reading.isHuge, Reading.hugeExponentLength, Bool.and_eq_true]
  exact ⟨⟨by simp [hne], List.all_eq_true.mpr h⟩, decide_eq_true hlength⟩

/-- A literal with a huge exponent is zero, beyond every bound, or nearer to zero than any
decimal. -/
theorem ofHugeExponent?_chars {p : Plain} {x : PlainExponent} (hx : p.exponent = some x)
    (hlarge : 10 ^ 18 ≤ x.power.natAbs) :
    Reading.ofHugeExponent? p.chars
      = some (if p.coefficient = 0 then .exact zero
          else if x.power < 0 then .vanishing else .unbounded) := by
  have hmagnitude : x.power.natAbs = Nat.ofDigitChars 10 x.digits 0 := natAbs_apply x.sign _
  have hsign : x.sign.isMinus = true ↔ x.power < 0 := by
    simp only [PlainExponent.power, Sign.apply] at hlarge ⊢
    split
    · rename_i hminus
      rw [if_pos hminus] at hlarge
      exact ⟨fun _ => by omega, fun _ => hminus⟩
    · rename_i hplus
      exact ⟨fun h => absurd h hplus, fun h => by omega⟩
  have hfront : Text.splitSign p.chars = (p.sign.isMinus, p.body ++ p.tail) := by
    rw [chars, List.append_assoc]
    apply splitSign_chars
    intro c hc
    rw [List.head?_append_of_ne_nil _ p.body_ne_nil] at hc
    rcases isDigit_or_point (List.mem_of_mem_head? hc) with hd | rfl
    · exact ⟨ne_of_isDigit hd (by decide), ne_of_isDigit hd (by decide)⟩
    · decide
  have hmark : Text.splitFirst isExponentMark (p.body ++ p.tail) = (p.body, some x.chars) := by
    have := splitFirst_mark .none p
    rwa [hx] at this
  have hpoint : splitPoint p.body = (p.whole, p.fraction.getD []) := splitPoint_base .none p
  have hbase : Reading.isPlainBase p.whole (p.fraction.getD []) = true := by
    have hne := p.ne_nil
    have hall := p.isDigits
    simp only [Reading.isPlainBase, Bool.and_eq_true, List.all_eq_true]
    refine ⟨⟨?_, fun c hc => hall c (List.mem_append_left _ hc)⟩,
      fun c hc => hall c (List.mem_append_right _ hc)⟩
    cases hw : p.whole <;> cases hf : p.fraction.getD [] <;> simp_all
  have hhuge : Reading.isHuge x.digits = true :=
    isHuge_digits x.ne_nil x.isDigits (by omega)
  have hzero : (p.whole ++ p.fraction.getD []).all (· = '0') = true ↔ p.coefficient = 0 := by
    rw [coefficient, apply_eq_zero_iff, digits, Digits.ofDigitChars_eq_zero_iff p.isDigits,
      List.all_eq_true]
    simp only [decide_eq_true_eq]
  unfold Reading.ofHugeExponent?
  rw [hfront]
  simp only [hmark, hpoint, PlainExponent.chars, splitSign_digits x.sign x.isDigits, hbase, hhuge,
    Bool.and_self, if_true, hzero, hsign]
  split
  · rfl
  · split <;> rfl

theorem length_digits_le (p : Plain) : p.digits.length ≤ p.chars.length := by
  simp only [digits, chars, body, List.length_append]
  cases p.fraction with
  | none =>
      simp
      omega
  | some ds =>
      simp
      omega

theorem Short.length_digits_lt {p : Plain} (h : p.Short) : p.digits.length < 2 ^ 62 :=
  calc p.digits.length ≤ p.chars.length := p.length_digits_le
    _ = p.text.toList.length := by rw [text, String.toList_ofList]
    _ ≤ (octets p.text).length := (length_octets_bounds p.text).1
    _ < 2 ^ 62 := h

theorem short_of_length_chars {p : Plain} (h : p.chars.length < 2 ^ 60) : p.Short := by
  have hbytes := (length_octets_bounds p.text).2
  rw [text, String.toList_ofList, ← text] at hbytes
  show (octets p.text).length < 2 ^ 62
  omega

theorem Short.places_lt {p : Plain} (h : p.Short) : p.places < 2 ^ 62 := by
  have hdigits := h.length_digits_lt
  rw [digits, List.length_append] at hdigits
  unfold places
  omega

/-- **No plain literal is refused**: it is read as its digits at its scale, and where the scale
is out of range as zero or as what lies beyond the scales. -/
theorem ofText_plain {p : Plain} (h : p.Short) : Reading.ofText p.text = .ok p.reading := by
  have hplaces := h.places_lt
  unfold Reading.ofText reading
  rcases ofText_eq p hplaces with ⟨hfits, hok⟩ | ⟨hfits, fault, hfault⟩
  · rw [hok, if_pos hfits]
  · have hrange : p.places - p.power < -2 ^ 63 ∨ 2 ^ 63 - 1 < p.places - p.power := by
      have hout := hfits
      rw [← Bool.not_eq_true, fitsScale_iff] at hout
      omega
    cases hx : p.exponent with
    | none =>
        have hpower : p.power = 0 := by simp [power, hx]
        omega
    | some x =>
        have hpower : p.power = x.power := by simp [power, hx]
        rw [hpower] at hrange
        rw [hfault, text, String.toList_ofList, ofHugeExponent?_chars hx (by omega), ← hpower]
        have hneg : p.power < 0 ↔ ¬ p.places - p.power < 0 := by omega
        simp only [hfits, hneg, Bool.false_eq_true, if_false]
        by_cases hzero : p.coefficient = 0
        · rw [if_pos hzero, if_pos hzero]
        · rw [if_neg hzero, if_neg hzero]
          split <;> simp_all

theorem reading_cases (p : Plain) :
    (fitsScale (p.places - p.power) = true ∧
      p.reading = .exact ⟨p.coefficient, Int64.ofInt (p.places - p.power)⟩) ∨
    (fitsScale (p.places - p.power) = false ∧ p.coefficient = 0 ∧ p.reading = .exact zero) ∨
    (p.coefficient ≠ 0 ∧ p.places - p.power < -2 ^ 63 ∧ p.reading = .unbounded) ∨
    (p.coefficient ≠ 0 ∧ 2 ^ 63 - 1 < p.places - p.power ∧ p.reading = .vanishing) := by
  unfold reading
  by_cases hfits : fitsScale (p.places - p.power) = true
  · exact Or.inl ⟨hfits, if_pos hfits⟩
  · have hrange := mt fitsScale_iff.mpr hfits
    simp only [if_neg hfits]
    by_cases hzero : p.coefficient = 0
    · exact Or.inr (Or.inl ⟨Bool.not_eq_true _ ▸ hfits, hzero, if_pos hzero⟩)
    · rw [if_neg hzero]
      by_cases hneg : p.places - p.power < 0
      · exact Or.inr (Or.inr (Or.inl ⟨hzero, by omega, if_pos hneg⟩))
      · exact Or.inr (Or.inr (Or.inr ⟨hzero, by omega, if_neg hneg⟩))

/--
**A plain literal is read exactly while its scale is a 64-bit integer, and is never refused.**  The
digits are those of the base with their sign, and the scale is the number of places less the
exponent.  Where that is no 64-bit integer, a zero is still zero, a number whose scale is too small
is beyond every bound, and one whose scale is too large is nearer to zero than any decimal.
-/
theorem reading_by_scale {p : Plain} (h : p.Short) :
    (∃ r, Reading.ofText p.text = .ok r) ∧
    (-2 ^ 63 ≤ p.places - p.power → p.places - p.power ≤ 2 ^ 63 - 1 →
      ∃ d : Decimal, Reading.ofText p.text = .ok (.exact d) ∧
        d.digits = p.coefficient ∧ d.scale.toInt = p.places - p.power) ∧
    (p.places - p.power < -2 ^ 63 ∨ 2 ^ 63 - 1 < p.places - p.power → p.coefficient = 0 →
      Reading.ofText p.text = .ok (.exact zero)) ∧
    (p.places - p.power < -2 ^ 63 → p.coefficient ≠ 0 →
      Reading.ofText p.text = .ok .unbounded) ∧
    (2 ^ 63 - 1 < p.places - p.power → p.coefficient ≠ 0 →
      Reading.ofText p.text = .ok .vanishing) := by
  rw [ofText_plain h]
  refine ⟨⟨_, rfl⟩, ?_⟩
  rcases p.reading_cases with
    ⟨hfits, hr⟩ | ⟨hfits, hzero, hr⟩ | ⟨hne, hhuge, hr⟩ | ⟨hne, htiny, hr⟩
  · obtain ⟨hl, hu⟩ := fitsScale_iff.mp hfits
    have hscale := Int64.toInt_ofInt_of_le hl (by omega)
    refine ⟨?_, fun hout => by omega, fun hsmall => by omega, fun hlarge => by omega⟩
    intro _ _
    exact ⟨⟨p.coefficient, Int64.ofInt (p.places - p.power)⟩, by rw [hr], rfl, hscale⟩
  · have hrange : ¬ (-2 ^ 63 ≤ p.places - p.power ∧ p.places - p.power ≤ 2 ^ 63 - 1) := by
      rw [← fitsScale_iff, hfits]
      decide
    exact ⟨fun hl hu => absurd ⟨hl, hu⟩ hrange, fun _ _ => by rw [hr],
      fun _ hne => absurd hzero hne, fun _ hne => absurd hzero hne⟩
  · exact ⟨fun hl => by omega, fun _ hzero => absurd hzero hne, fun _ _ => by rw [hr],
      fun hlarge => by omega⟩
  · exact ⟨fun _ hu => by omega, fun _ hzero => absurd hzero hne, fun hsmall => by omega,
      fun _ _ => by rw [hr]⟩

/-- The literal `1.5e9223372036854775809`: one place less its exponent is the least scale. -/
def leastScale : Plain :=
  ⟨.none, ['1'], some ['5'],
    some ⟨'e', .none, ['9', '2', '2', '3', '3', '7', '2', '0', '3', '6', '8', '5', '4', '7', '7',
      '5', '8', '0', '9'], isExponentMark_e, by decide, List.all_eq_true.mp rfl⟩,
    by decide, List.all_eq_true.mp rfl⟩

/-- The literal with the least scale is read exactly. -/
theorem reading_of_leastScale :
    leastScale.text = "1.5e9223372036854775809" ∧ leastScale.Short ∧
      leastScale.places - leastScale.power = -2 ^ 63 ∧
      ∃ d : Decimal, Reading.ofText leastScale.text = .ok (.exact d) ∧
        d.digits = 15 ∧ d.scale.toInt = -2 ^ 63 := by
  have hshort : leastScale.Short := by decide
  have hscale : leastScale.places - leastScale.power = -2 ^ 63 := rfl
  obtain ⟨d, hd, hdigits, hexp⟩ := (reading_by_scale hshort).2.1 hscale.ge (by omega)
  exact ⟨rfl, hshort, hscale, d, hd, hdigits, hexp.trans hscale⟩

end Plain

end AmountField.Decimal
