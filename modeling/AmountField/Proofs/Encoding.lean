/-
The encoding of an issued value depends only on the number.

A number has many spellings, and they take different ways through the reader: most are read
exactly, one with an exponent beyond every scale is not, and a zero may be either.
`ofText_truncates` says that all of them end at the truncation of the number that is spelled.
For an exact reading that is what normalizing a decimal does.  For the others it is a matter of
size alone: an exponent that drives the scale beyond 64 bits gives the number an order beyond
2 ^ 62, which leaves the window far behind, on the same side.

With that, equal numbers have equal fields and larger numbers have larger ones because
truncation is a function of the number and keeps its order.
-/
import AmountField.Proofs.Decimal.Size
import AmountField.Proofs.Normalization

namespace AmountField

namespace Issued

open Decimal (Plain)

/-! ### Every spelling is truncated -/

theorem truncate?_of_huge (w : Window) {v : ℚ} (hv : v ≠ 0) (h : 2 ^ 62 < Int.log 10 |v|) :
    w.truncate? v = none := by
  have hgreatest := w.le_greatest
  have hcross := w.min_le_max
  have hlead : w.maxExponent < leadingExponent v := by
    unfold leadingExponent
    omega
  unfold Window.truncate?
  rw [if_neg hv, if_neg (by omega), if_pos hlead]

theorem truncate?_of_tiny (w : Window) {v : ℚ} (hv : v ≠ 0) (h : Int.log 10 |v| < -2 ^ 62) :
    w.truncate? v = some .zero := by
  have hleast := w.least_le
  have hlead : leadingExponent v < w.minExponent := by
    unfold leadingExponent
    omega
  unfold Window.truncate?
  rw [if_neg hv, if_pos hlead]

/-- **The canonical value of a plain literal is the truncation of its number**, whatever way
the literal is read. -/
theorem Canonical.ofText_truncates (w : Window) {p : Plain} (h : p.Short) :
    OkOrOverflow (ofText w p.text) (w.truncate? p.value) := by
  unfold ofText
  rcases Plain.ofText_by_order h with ⟨d, hr, hvalue⟩ | ⟨hr, hne, hhuge⟩ | ⟨hr, hne, htiny⟩
  · rw [hr, ← hvalue]
    exact ofDecimal_truncates w d
  · rw [hr, truncate?_of_huge w hne hhuge]
    exact ⟨_, rfl, rfl⟩
  · rw [hr, truncate?_of_tiny w hne htiny]
    rfl

theorem Canonical.within_of_ofText {w : Window} {text : String} {c : Canonical}
    (h : ofText w text = .ok c) : c.Within w := by
  unfold ofText at h
  obtain ⟨r, -, hr⟩ := bind_eq_ok_iff.mp h
  cases r with
  | exact d => exact Window.within_of_truncate? ((ofDecimal_truncates w d).eq_some hr)
  | unbounded => cases hr
  | vanishing =>
      cases hr
      trivial

/-! ### Fields -/

theorem exists_ofBits_of_encode {w : Window} {text : String} {field : IssuedField}
    (h : encode w text = .ok field) : ∃ c, Canonical.ofBits w field.word = .ok c := by
  obtain ⟨c, hc, hfield⟩ := bind_eq_ok_iff.mp h
  obtain ⟨field', hfield', hbits⟩ := Canonical.exists_toField (Canonical.within_of_ofText hc)
  have heq : field' = field := Except.ok.inj (hfield'.symm.trans hfield)
  exact ⟨c, heq ▸ hbits⟩

/-- The field of a literal is the field of its truncation, which the window reads back. -/
theorem encode_of_truncate? {w : Window} {p : Plain} {c : Canonical} (h : p.Short)
    (hc : w.truncate? p.value = some c) :
    ∃ field, c.toField = .ok field ∧ Canonical.ofBits w field.word = .ok c ∧
      encode w p.text = .ok field := by
  obtain ⟨field, hfield, hbits⟩ := Canonical.exists_toField (Window.within_of_truncate? hc)
  have htext := Canonical.ofText_truncates w h
  rw [hc] at htext
  refine ⟨field, hfield, hbits, ?_⟩
  unfold encode
  rw [show Canonical.ofText w p.text = .ok c from htext]
  exact hfield

/-- A literal overflows where its number has no truncation, and nowhere else. -/
theorem encode_overflows_iff {w : Window} {p : Plain} (h : p.Short) :
    Overflows (encode w p.text) ↔ w.truncate? p.value = none := by
  have htext := Canonical.ofText_truncates w h
  refine ⟨?_, ?_⟩
  · intro hparts
    obtain ⟨cause, herror, -⟩ := hparts
    rw [Option.eq_none_iff_forall_ne_some]
    intro c hc
    obtain ⟨field, -, -, hok⟩ := encode_of_truncate? h hc
    rw [hok] at herror
    cases herror
  · intro hnone
    rw [hnone] at htext
    obtain ⟨cause, herror, hkind⟩ := htext
    refine ⟨cause, ?_, hkind⟩
    unfold encode
    rw [herror]
    rfl

theorem truncate?_of_encode {w : Window} {p : Plain} {field : IssuedField} (h : p.Short)
    (hok : encode w p.text = .ok field) :
    ∃ c, w.truncate? p.value = some c ∧ Canonical.ofBits w field.word = .ok c := by
  obtain ⟨c, hc, -⟩ := bind_eq_ok_iff.mp hok
  have htrunc := (Canonical.ofText_truncates w h).eq_some hc
  obtain ⟨field', -, hbits, hok'⟩ := encode_of_truncate? h htrunc
  rw [hok] at hok'
  cases hok'
  exact ⟨c, htrunc, hbits⟩

/--
**The encoding of a plain literal is a function of its number, and keeps the order of numbers.**
Two spellings of one number have the same field or both overflow; of two numbers with a field,
the larger has the larger decimal; and where a number overflows, so does every number of no
smaller magnitude.
-/
theorem encode_by_value (w : Window) (p q : Plain) (hp : p.Short) (hq : q.Short) :
    (p.value = q.value →
      (∃ field, encode w p.text = .ok field ∧ encode w q.text = .ok field) ∨
      (Overflows (encode w p.text) ∧ Overflows (encode w q.text))) ∧
    (p.value ≤ q.value → ∀ f g, encode w p.text = .ok f → encode w q.text = .ok g →
      ∃ c d, Canonical.ofBits w f.word = .ok c ∧ Canonical.ofBits w g.word = .ok d ∧
        c.toDecimal.value ≤ d.toDecimal.value) ∧
    (|p.value| ≤ |q.value| → Overflows (encode w p.text) → Overflows (encode w q.text)) := by
  refine ⟨?_, ?_, ?_⟩
  · intro heq
    cases hc : w.truncate? p.value with
    | none =>
        rw [encode_overflows_iff hp, encode_overflows_iff hq, ← heq]
        exact Or.inr ⟨hc, hc⟩
    | some c =>
        obtain ⟨f, hf, -, hpf⟩ := encode_of_truncate? hp hc
        obtain ⟨g, hg, -, hqg⟩ := encode_of_truncate? hq (heq ▸ hc)
        rw [hf] at hg
        cases hg
        exact Or.inl ⟨f, hpf, hqg⟩
  · intro hle f g hf hg
    obtain ⟨c, hc, hfc⟩ := truncate?_of_encode hp hf
    obtain ⟨d, hd, hgd⟩ := truncate?_of_encode hq hg
    exact ⟨c, d, hfc, hgd, Window.truncate?_mono hle hc hd⟩
  · intro hle hover
    rw [encode_overflows_iff hp] at hover
    rw [encode_overflows_iff hq]
    exact Window.truncate?_eq_none_mono hle hover

/-- The literal `1.50`. -/
def threeHalves : Plain :=
  ⟨.none, ['1'], some ['5', '0'], none, by decide, List.all_eq_true.mp rfl⟩

/-- The literal `15e-1`. -/
def fifteenTenths : Plain :=
  ⟨.none, ['1', '5'], none, some ⟨'e', .minus, ['1'], rfl, by decide, List.all_eq_true.mp rfl⟩,
    by decide, List.all_eq_true.mp rfl⟩

/-- Two spellings of three halves, one field. -/
theorem encode_three_halves :
    threeHalves.text = "1.50" ∧ fifteenTenths.text = "15e-1" ∧
      ∃ field, encode .full threeHalves.text = .ok field ∧
        encode .full fifteenTenths.text = .ok field := by
  have hp : threeHalves.value = 3 / 2 := by
    rw [Plain.value, show threeHalves.coefficient = 150 from rfl,
      show threeHalves.power - threeHalves.places = -2 from rfl]
    norm_num
  have hq : fifteenTenths.value = 3 / 2 := by
    rw [Plain.value, show fifteenTenths.coefficient = 15 from rfl,
      show fifteenTenths.power - fifteenTenths.places = -1 from rfl]
    norm_num
  have hok : encode .full threeHalves.text = .ok ⟨0xD485543DF729C000, by decide⟩ := rfl
  refine ⟨rfl, rfl, ?_⟩
  rcases (encode_by_value .full threeHalves fifteenTenths (by decide) (by decide)).1
    (hp.trans hq.symm) with hfield | ⟨⟨cause, herror, -⟩, -⟩
  · exact hfield
  · rw [hok] at herror
    cases herror

end Issued

end AmountField
