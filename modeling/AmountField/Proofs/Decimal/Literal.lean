/-
What is read has the form of a literal.

`Literal` is the syntax tree of `[+-]?M([eE][+-]?digits)?`, where `M` is digits and separators
with at most one point and at least one digit.  A plain literal is one without separators.

Each reader has a lemma that undoes it: what was read is put together again from a sign, digits
and the character that the reader split at.  The reader of the base does not see where the point
was, only the two parts joined, and this is the one place where a character can stand wrongly.
With nothing in front of the point, the sign that is taken off the joined text is one that stood
behind the point.  `exists_literal` therefore has two cases, a literal, and a point in front of a
literal that has a sign and no point of its own.
-/
import AmountField.Proofs.Decimal.Plain
import AmountField.Proofs.Results

namespace AmountField.Decimal

/-! ### The form -/

/-- A fraction with its point, if there is one. -/
def fractionChars : Option (List Char) → List Char
  | none => []
  | some ds => '.' :: ds

/-- A literal that may have separators among its digits. -/
structure Literal where
  sign : Sign
  /-- What stands in front of the point. -/
  whole : List Char
  /-- What stands behind the point, if there is a point. -/
  fraction : Option (List Char)
  /-- The exponent, if there is one. -/
  exponent : Option PlainExponent
  isBase : ∀ c ∈ whole ++ fraction.getD [], c.isDigit = true ∨ c = '_'
  hasDigit : ∃ c ∈ whole ++ fraction.getD [], c.isDigit = true

namespace Literal

/-- The digits and separators of the base. -/
def digits (p : Literal) : List Char := p.whole ++ p.fraction.getD []

/-- The base without its sign. -/
def body (p : Literal) : List Char := p.whole ++ fractionChars p.fraction

/-- The mark and what stands behind it. -/
def tail (p : Literal) : List Char :=
  match p.exponent with
  | none => []
  | some x => x.mark :: x.chars

/-- The characters of a literal. -/
def chars (p : Literal) : List Char := p.sign.chars ++ p.body ++ p.tail

/-- The text of a literal. -/
def text (p : Literal) : String := String.ofList p.chars

/-- The digits of the base as an integer with its sign. -/
def coefficient (p : Literal) : Int :=
  p.sign.apply (Nat.ofDigitChars 10 (p.digits.filter Char.isDigit) 0)

/-- The literal is the text, or stands behind a point at its front with nothing but its sign
between them. -/
def LiesIn (p : Literal) (cs : List Char) : Prop :=
  cs = p.chars ∨ (cs = '.' :: p.chars ∧ p.sign ≠ .none ∧ p.fraction = none)

/-- A literal without separators as a plain one, under another exponent. -/
def toPlain (p : Literal) (h : ∀ c ∈ p.digits, c.isDigit = true) (x : Option PlainExponent) :
    Plain where
  sign := p.sign
  whole := p.whole
  fraction := p.fraction
  exponent := x
  ne_nil := by
    obtain ⟨c, hc, -⟩ := p.hasDigit
    exact List.ne_nil_of_mem hc
  isDigits := h

theorem body_toPlain {p : Literal} (h : ∀ c ∈ p.digits, c.isDigit = true)
    (x : Option PlainExponent) : (p.toPlain h x).body = p.body := by
  show p.whole ++ _ = p.whole ++ fractionChars p.fraction
  cases hfraction : p.fraction with
  | none => simp [toPlain, hfraction, fractionChars]
  | some ds => simp [toPlain, hfraction, fractionChars]

theorem mem_body_iff {p : Literal} {c : Char} :
    c ∈ p.body ↔ c ∈ p.digits ∨ (c = '.' ∧ p.fraction.isSome = true) := by
  unfold body digits
  cases p.fraction with
  | none => simp [fractionChars]
  | some ds => simp [fractionChars, or_assoc, or_comm]

theorem coefficient_toPlain {p : Literal} (h : ∀ c ∈ p.digits, c.isDigit = true)
    (x : Option PlainExponent) : (p.toPlain h x).coefficient = p.coefficient := by
  rw [coefficient, List.filter_eq_self.mpr h]
  rfl

/-- Whether there is a digit other than zero. -/
def Nonzero (cs : List Char) : Prop := ∃ c ∈ cs, c.isDigit = true ∧ c ≠ '0'

theorem nonzero_sign_append (s : Sign) (cs : List Char) :
    Nonzero (s.chars ++ cs) ↔ Nonzero cs := by
  unfold Nonzero
  cases s with
  | none => rfl
  | plus => simp [Sign.chars]
  | minus => simp [Sign.chars]

theorem coefficient_ne_zero_iff {p : Literal} : p.coefficient ≠ 0 ↔ Nonzero p.body := by
  have hdigits : ∀ c ∈ p.digits.filter Char.isDigit, c.isDigit = true := fun c hc =>
    (List.mem_filter.mp hc).2
  rw [coefficient, Ne, Plain.apply_eq_zero_iff, Digits.ofDigitChars_eq_zero_iff hdigits]
  push Not
  refine ⟨?_, ?_⟩
  · intro hparts
    obtain ⟨c, hc, hne⟩ := hparts
    obtain ⟨hmem, hdigit⟩ := List.mem_filter.mp hc
    exact ⟨c, mem_body_iff.mpr (Or.inl hmem), hdigit, hne⟩
  · intro hparts
    obtain ⟨c, hc, hdigit, hne⟩ := hparts
    rcases mem_body_iff.mp hc with hmem | ⟨rfl, -⟩
    · exact ⟨c, List.mem_filter.mpr ⟨hmem, hdigit⟩, hne⟩
    · exact absurd hdigit (by decide)

theorem coefficient_neg_iff {p : Literal} :
    p.coefficient < 0 ↔ p.sign = .minus ∧ Nonzero p.body := by
  rw [← coefficient_ne_zero_iff, coefficient, Ne, Plain.apply_eq_zero_iff]
  cases p.sign with
  | none => simp [Sign.apply, Sign.isMinus]
  | plus => simp [Sign.apply, Sign.isMinus]
  | minus =>
      simp only [Sign.apply, Sign.isMinus, if_true, true_and]
      omega

end Literal

/-! ### Signs, exponents and digits -/

theorem splitSign_eq (cs : List Char) :
    ∃ s : Sign, cs = s.chars ++ (Text.splitSign cs).2 ∧ (Text.splitSign cs).1 = s.isMinus := by
  unfold Text.splitSign
  split
  · exact ⟨.plus, rfl, rfl⟩
  · exact ⟨.minus, rfl, rfl⟩
  · exact ⟨.none, rfl, rfl⟩

theorem isDigit_of_readBounded {limit : Nat} {excess : Fault} {ds : List Char} :
    ∀ {n m : Nat}, readBounded limit excess n ds = .ok m → ∀ c ∈ ds, c.isDigit = true := by
  induction ds with
  | nil => simp
  | cons d rest ih =>
      intro n m h
      unfold readBounded at h
      split at h
      · rename_i hd
        simp only at h
        split at h
        · cases h
        · intro c hc
          rcases List.mem_cons.mp hc with rfl | hrest
          · exact hd
          · exact ih h c hrest
      · cases h

theorem exists_exponent {mark : Char} (hmark : isExponentMark mark = true) {cs : List Char}
    {e : Int} (h : readExponent cs = .ok e) :
    ∃ x : PlainExponent, x.mark = mark ∧ x.chars = cs := by
  obtain ⟨s, hcs, -⟩ := splitSign_eq cs
  unfold readExponent at h
  split at h
  · cases h
  · simp only at h
    split at h
    · cases h
    · rename_i hne
      have hdigits : ∀ c ∈ (Text.splitSign cs).2, c.isDigit = true := by
        split at h
        · obtain ⟨_, hmap, -⟩ := map_eq_ok_iff.mp h
          obtain ⟨n, hread, -⟩ := bind_eq_ok_iff.mp hmap
          exact isDigit_of_readBounded hread
        · obtain ⟨_, hmap, -⟩ := map_eq_ok_iff.mp h
          obtain ⟨n, hread, -⟩ := bind_eq_ok_iff.mp hmap
          exact isDigit_of_readBounded hread
      exact ⟨⟨mark, s, (Text.splitSign cs).2, hmark, by simpa using hne, hdigits⟩, rfl, hcs.symm⟩

/-- What is read as digits is a sign and digits with separators, the first of them a digit. -/
theorem exists_digits {cs : List Char} {n : Int} (h : readDigits cs = .ok n) :
    ∃ (s : Sign) (ds : List Char), cs = s.chars ++ ds ∧
      (∀ c ∈ ds, c.isDigit = true ∨ c = '_') ∧ (∃ c ∈ ds, c.isDigit = true) ∧
      n = s.apply (Nat.ofDigitChars 10 (ds.filter Char.isDigit) 0) := by
  obtain ⟨s, hcs, hminus⟩ := splitSign_eq cs
  unfold readDigits at h
  simp only at h
  split at h
  · cases h
  · split at h
    · cases h
    · split at h
      · rename_i hne hhead hall
        have hbase : ∀ c ∈ (Text.splitSign cs).2, c.isDigit = true ∨ c = '_' := by
          intro c hc
          simpa [isDigitOrSeparator] using List.all_eq_true.mp hall c hc
        refine ⟨s, (Text.splitSign cs).2, hcs, hbase, ?_, ?_⟩
        · cases hds : (Text.splitSign cs).2 with
          | nil => simp [hds] at hne
          | cons c rest =>
              rcases hbase c (by simp [hds]) with hdigit | rfl
              · exact ⟨c, by simp, hdigit⟩
              · simp [hds] at hhead
        · rw [hminus] at h
          exact (Except.ok.inj h).symm
      · cases h

/-! ### The base -/

theorem splitPoint_eq (base : List Char) :
    ∃ (whole : List Char) (fraction : Option (List Char)),
      base = whole ++ fractionChars fraction ∧ splitPoint base = (whole, fraction.getD []) := by
  unfold splitPoint
  rcases Text.splitFirst_cases (· = '.') base with
    ⟨-, hsplit⟩ | ⟨whole, mark, fraction, hbase, hmark, -, hsplit⟩
  · exact ⟨base, none, by simp [fractionChars], by rw [hsplit]⟩
  · rw [of_decide_eq_true hmark] at hbase
    exact ⟨whole, some fraction, hbase, by rw [hsplit]⟩

/-- A sign at the front of two joined parts is in the first part, unless that part is empty. -/
theorem sign_of_join {whole fraction ds : List Char} {s : Sign}
    (h : whole ++ fraction = s.chars ++ ds) :
    (∃ rest, whole = s.chars ++ rest ∧ ds = rest ++ fraction) ∨
      (whole = [] ∧ s ≠ .none ∧ fraction = s.chars ++ ds) := by
  by_cases hs : s = .none
  · subst hs
    exact Or.inl ⟨whole, rfl, h.symm⟩
  · cases whole with
    | nil => exact Or.inr ⟨rfl, hs, h⟩
    | cons c rest => cases s <;> simp_all [Sign.chars]

/-- A base whose joined parts are read as digits is that of a literal, or a point in front of
one. -/
theorem exists_literal_of_readDigits {base : List Char} {n : Int}
    (h : readDigits ((splitPoint base).1 ++ (splitPoint base).2) = .ok n)
    (x : Option PlainExponent) :
    ∃ p : Literal, p.exponent = x ∧ p.LiesIn (base ++ p.tail) ∧ n = p.coefficient := by
  obtain ⟨s, ds, hjoin, hbase, hdigit, hn⟩ := exists_digits h
  obtain ⟨whole, fraction, rfl, hsplit⟩ := splitPoint_eq base
  simp only [hsplit] at hjoin
  rcases sign_of_join hjoin with ⟨rest, rfl, rfl⟩ | ⟨rfl, hsign, hfraction⟩
  · refine ⟨⟨s, rest, fraction, x, hbase, hdigit⟩, rfl, Or.inl ?_, hn⟩
    rw [Literal.chars, Literal.body, List.append_assoc s.chars]
  · refine ⟨⟨s, ds, none, x, by simpa using hbase, by simpa using hdigit⟩, rfl,
      Or.inr ⟨?_, hsign, rfl⟩, ?_⟩
    · cases fraction with
      | none => cases s <;> simp_all [Sign.chars]
      | some behind =>
          rw [Option.getD_some] at hfraction
          simp [hfraction, fractionChars, Literal.chars, Literal.body]
    · simpa [Literal.coefficient, Literal.digits] using hn

/-! ### The whole text -/

theorem readDigits_of_ofBase {text : String} {base : List Char} {e : Int} {d : Decimal}
    (h : ofBase text base e = .ok d) :
    readDigits ((splitPoint base).1 ++ (splitPoint base).2) = .ok d.digits := by
  unfold ofBase at h
  split at h
  · cases h
  · simp only at h
    split at h
    · obtain ⟨n, hread, rfl⟩ := map_eq_ok_iff.mp h
      exact hread
    · cases h

theorem exists_literal_of_ofText {text : String} {d : Decimal} (h : Decimal.ofText text = .ok d) :
    ∃ p : Literal, p.LiesIn text.toList ∧ d.digits = p.coefficient := by
  unfold Decimal.ofText at h
  rcases Text.splitFirst_cases isExponentMark text.toList with
    ⟨-, hsplit⟩ | ⟨base, mark, cs, htext, hmark, -, hsplit⟩
  · rw [hsplit] at h
    obtain ⟨p, hx, hlies, hcoefficient⟩ :=
      exists_literal_of_readDigits (readDigits_of_ofBase h) none
    rw [Literal.tail, hx, List.append_nil] at hlies
    exact ⟨p, hlies, hcoefficient⟩
  · rw [hsplit] at h
    obtain ⟨e, hexponent, hbase⟩ := bind_eq_ok_iff.mp h
    obtain ⟨x, rfl, rfl⟩ := exists_exponent hmark hexponent
    obtain ⟨p, hx, hlies, hcoefficient⟩ :=
      exists_literal_of_readDigits (readDigits_of_ofBase hbase) (some x)
    rw [Literal.tail, hx, ← htext] at hlies
    exact ⟨p, hlies, hcoefficient⟩

/-- What the second look reads is a literal, and one of zeros if it is read as a decimal. -/
theorem exists_literal_of_ofHugeExponent? {cs : List Char} {r : Reading}
    (h : Reading.ofHugeExponent? cs = some r) :
    ∃ p : Literal, cs = p.chars ∧ ∀ d, r = .exact d → d.digits = p.coefficient := by
  obtain ⟨s, hcs, -⟩ := splitSign_eq cs
  unfold Reading.ofHugeExponent? at h
  rcases Text.splitFirst_cases isExponentMark (Text.splitSign cs).2 with
    ⟨-, hsplit⟩ | ⟨base, mark, exponent, hrest, hmark, -, hsplit⟩
  · rw [hsplit] at h
    cases h
  obtain ⟨s', hexponent, -⟩ := splitSign_eq exponent
  obtain ⟨whole, fraction, hbase, hpoint⟩ := splitPoint_eq base
  rw [hsplit] at h
  simp only [hpoint] at h
  split at h
  · rename_i hform
    simp only [Reading.isPlainBase, Reading.isHuge, Bool.and_eq_true, List.all_eq_true] at hform
    obtain ⟨⟨⟨hne, hwhole⟩, hfraction⟩, ⟨hne', hdigits'⟩, -⟩ := hform
    have hdigits : ∀ c ∈ whole ++ fraction.getD [], c.isDigit = true := fun c hc =>
      (List.mem_append.mp hc).elim (hwhole c) (hfraction c)
    have hhas : ∃ c ∈ whole ++ fraction.getD [], c.isDigit = true := by
      obtain ⟨c, hc⟩ := List.exists_mem_of_ne_nil (whole ++ fraction.getD []) (by
        intro hnil
        simp [List.append_eq_nil_iff.mp hnil] at hne)
      exact ⟨c, hc, hdigits c hc⟩
    refine ⟨⟨s, whole, fraction, some ⟨mark, s', (Text.splitSign exponent).2, hmark,
      by simpa using hne', hdigits'⟩, fun c hc => Or.inl (hdigits c hc), hhas⟩, ?_, ?_⟩
    · rw [hcs, hrest, hbase]
      simp [Literal.chars, Literal.body, Literal.tail, PlainExponent.chars, ← hexponent]
    · intro d hd
      subst hd
      split at h
      · rename_i hzeros
        cases h
        have hall : ∀ c ∈ whole ++ fraction.getD [], c = '0' := by
          simpa using List.all_eq_true.mp hzeros
        have hnumber := (Digits.ofDigitChars_eq_zero_iff hdigits).mpr hall
        rw [Literal.coefficient, Literal.digits, List.filter_eq_self.mpr hdigits, hnumber,
          (Plain.apply_eq_zero_iff s 0).mpr rfl]
        rfl
      · split at h <;> cases h
  · cases h

/-- **What is read as a decimal is a literal, or a point in front of one**, and the digits of
an exact reading are those of the literal. -/
theorem exists_literal {text : String} {r : Reading} (h : Reading.ofText text = .ok r) :
    ∃ p : Literal, p.LiesIn text.toList ∧ ∀ d, r = .exact d → d.digits = p.coefficient := by
  unfold Reading.ofText at h
  split at h
  · rename_i d hexact
    cases h
    obtain ⟨p, hlies, hcoefficient⟩ := exists_literal_of_ofText hexact
    refine ⟨p, hlies, ?_⟩
    intro d' hd'
    cases hd'
    exact hcoefficient
  · split at h
    · rename_i r' hhuge
      cases h
      obtain ⟨p, hchars, hcoefficient⟩ := exists_literal_of_ofHugeExponent? hhuge
      exact ⟨p, Or.inl hchars, hcoefficient⟩
    · cases h

/-! ### The exception -/

/-- A point stands at the front with a sign right behind it. -/
def SignBehindPoint (cs : List Char) : Prop := cs.take 2 = ['.', '+'] ∨ cs.take 2 = ['.', '-']

instance (cs : List Char) : Decidable (SignBehindPoint cs) :=
  inferInstanceAs (Decidable (_ ∨ _))

theorem signBehindPoint_of_sign {s : Sign} (h : s ≠ .none) (rest : List Char) :
    SignBehindPoint ('.' :: (s.chars ++ rest)) := by
  cases s with
  | none => exact absurd rfl h
  | plus => exact Or.inl rfl
  | minus => exact Or.inr rfl

theorem exists_of_signBehindPoint {cs : List Char} (h : SignBehindPoint cs) :
    ∃ c rest, (c = '+' ∨ c = '-') ∧ cs = '.' :: c :: rest := by
  have hcs := List.take_append_drop 2 cs
  rcases h with htake | htake
  · exact ⟨'+', cs.drop 2, Or.inl rfl, by rw [htake] at hcs; exact hcs.symm⟩
  · exact ⟨'-', cs.drop 2, Or.inr rfl, by rw [htake] at hcs; exact hcs.symm⟩

namespace Literal

variable {p : Literal}

theorem LiesIn.eq_chars {cs : List Char} (h : p.LiesIn cs) (hsign : ¬ SignBehindPoint cs) :
    cs = p.chars := by
  rcases h with heq | ⟨heq, hne, -⟩
  · exact heq
  · rw [heq, chars, List.append_assoc] at hsign
    exact absurd (signBehindPoint_of_sign hne _) hsign

theorem not_isSign_of_mem_body {c : Char} (h : c ∈ p.body) : c ≠ '+' ∧ c ≠ '-' := by
  rcases mem_body_iff.mp h with hdigit | ⟨rfl, -⟩
  · rcases p.isBase c hdigit with hd | rfl
    · exact ⟨ne_of_isDigit hd (by decide), ne_of_isDigit hd (by decide)⟩
    · decide
  · decide

theorem body_ne_nil : p.body ≠ [] := by
  obtain ⟨c, hc, -⟩ := p.hasDigit
  exact List.ne_nil_of_mem (mem_body_iff.mpr (Or.inl hc))

theorem head?_chars : p.chars.head? = some '-' ↔ p.sign = .minus := by
  cases hs : p.sign with
  | plus => simp [chars, hs, Sign.chars]
  | minus => simp [chars, hs, Sign.chars]
  | none =>
      have hhead : (p.body ++ p.tail).head? = p.body.head? :=
        List.head?_append_of_ne_nil _ body_ne_nil
      simp only [chars, hs, Sign.chars, List.nil_append, hhead, reduceCtorEq, iff_false]
      intro hminus
      exact (not_isSign_of_mem_body (List.mem_of_mem_head? hminus)).2 rfl

/-- No literal has the form of the exception: what stands behind a point is a digit or a
separator. -/
theorem not_signBehindPoint : ¬ SignBehindPoint p.chars := by
  intro h
  obtain ⟨c, rest, hc, hchars⟩ := exists_of_signBehindPoint h
  obtain ⟨sign, whole, fraction, exponent, hbase, hdigit⟩ := p
  cases sign with
  | plus => simp [chars, Sign.chars] at hchars
  | minus => simp [chars, Sign.chars] at hchars
  | none =>
      cases whole with
      | cons d ds =>
          have hd : d = '.' := (List.cons.inj hchars).1
          rw [hd] at hbase
          exact absurd (hbase '.' (by simp)) (by decide)
      | nil =>
          cases fraction with
          | none => simp at hdigit
          | some behind =>
              cases behind with
              | nil => simp at hdigit
              | cons d ds =>
                  have hd : d = c := (List.cons.inj (List.cons.inj hchars).2).1
                  rw [hd] at hbase
                  rcases hc with rfl | rfl
                  · exact absurd (hbase '+' (by simp)) (by decide)
                  · exact absurd (hbase '-' (by simp)) (by decide)

theorem splitFirst_mark :
    Text.splitFirst isExponentMark p.chars
      = (p.sign.chars ++ p.body, p.exponent.map PlainExponent.chars) := by
  have hbase : ∀ c ∈ p.sign.chars ++ p.body, isExponentMark c = false := by
    intro c hc
    rcases List.mem_append.mp hc with hs | hb
    · cases hsign : p.sign <;> simp [hsign, Sign.chars] at hs <;> rw [hs] <;> decide
    · rcases mem_body_iff.mp hb with hdigit | ⟨rfl, -⟩
      · rcases p.isBase c hdigit with hd | rfl
        · exact isExponentMark_of_isDigit hd
        · decide
      · decide
  unfold chars tail
  cases p.exponent with
  | none =>
      rw [List.append_nil]
      exact Text.splitFirst_of_forall hbase
  | some x => exact Text.splitFirst_append hbase x.isMark x.chars

end Literal

end AmountField.Decimal
