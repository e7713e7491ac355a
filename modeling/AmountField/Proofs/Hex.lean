/-
Hexadecimal text is read as some bytes when it spells them, in either case of its letters.

A byte is read from two digits, so what is tested is that the digits of the text have the values
of the halves of the bytes, one by one: `decodeFrom_eq_ok_iff`.  A digit has a value in either
case, and that is the same as that its capital is the digit which is written for the value,
`value?_toUInt8_iff`, decided over ASCII.  No other character begins with a digit.

So the texts that spell bytes are those of an even number of digits, and nothing else about them
matters: `exists_toUpper_eq_encode_iff`.
-/
import AmountField.Proofs.Octets
import AmountField.Proofs.Results
import AmountField.Text.Hex

namespace AmountField.Hex

/-! ### Bytes and their halves -/

/-- The values of the digits of bytes. -/
def halves (bytes : List UInt8) : List Nat :=
  bytes.flatMap fun b => [b.toNat / 16, b.toNat % 16]

theorem halves_cons (b : UInt8) (bytes : List UInt8) :
    halves (b :: bytes) = b.toNat / 16 :: b.toNat % 16 :: halves bytes := rfl

theorem halves_lt {bytes : List UInt8} : ∀ n ∈ halves bytes, n < 16 := by
  intro n hn
  obtain ⟨b, -, hb⟩ := List.mem_flatMap.mp hn
  have hlt := b.toNat_lt
  simp only [List.mem_cons, List.not_mem_nil, or_false] at hb
  omega

theorem map_digit_halves (bytes : List UInt8) :
    (halves bytes).map digit = bytes.flatMap digits := by
  rw [halves, List.map_flatMap]
  rfl

theorem length_halves (bytes : List UInt8) : (halves bytes).length = 2 * bytes.length := by
  rw [halves, List.length_flatMap]
  simp [Nat.mul_comm]

theorem value?_lt {b : UInt8} {n : Nat} (h : value? b = some n) : n < 16 := by
  unfold value? at h
  simp only [UInt8.le_iff_toNat_le, UInt8.reduceToNat] at h
  split_ifs at h <;>
  · have hn := Option.some.inj h
    omega

theorem digitAt_eq_ok_iff {offset n : Nat} {b : UInt8} :
    digitAt offset b = .ok n ↔ value? b = some n := by
  unfold digitAt
  cases value? b <;> simp

/-- Digits are read as bytes when they have the values of the halves of the bytes. -/
theorem decodeFrom_eq_ok_iff {offset : Nat} {text bytes : List UInt8} :
    decodeFrom offset text = .ok bytes ↔ text.map value? = (halves bytes).map some := by
  induction offset, text using decodeFrom.induct generalizing bytes with
  | case1 offset =>
      cases bytes <;> simp [decodeFrom, halves]
  | case2 offset b =>
      refine ⟨fun h => absurd h (by simp [decodeFrom]), ?_⟩
      intro h
      have hlength := congrArg List.length h
      rw [List.length_map, List.length_map, length_halves, List.length_singleton] at hlength
      omega
  | case3 offset high low rest ih =>
      simp only [decodeFrom, bind_eq_ok_iff, pure_eq_ok_iff, digitAt_eq_ok_iff, ih]
      refine ⟨?_, ?_⟩
      · intro hparts
        obtain ⟨x, hx, y, hy, tail, hrest, rfl⟩ := hparts
        have hx16 := value?_lt hx
        have hy16 := value?_lt hy
        have hbyte : (UInt8.ofNat (16 * x + y)).toNat = 16 * x + y :=
          (UInt8.toNat_ofNat').trans (Nat.mod_eq_of_lt (by omega))
        have hhigh : (16 * x + y) / 16 = x := by omega
        have hlow : (16 * x + y) % 16 = y := by omega
        rw [List.map_cons, List.map_cons, hx, hy, hrest, halves_cons, hbyte, hhigh, hlow]
        rfl
      · intro h
        cases bytes with
        | nil => cases h
        | cons b tail =>
            rw [halves_cons] at h
            obtain ⟨hx, htail⟩ := List.cons.inj h
            obtain ⟨hy, hrest⟩ := List.cons.inj htail
            have hb := b.toNat_lt
            have hbyte : 16 * (b.toNat / 16) + b.toNat % 16 = b.toNat := by omega
            exact ⟨_, hx, _, hy, tail, hrest, by rw [hbyte, UInt8.ofNat_toNat]⟩

theorem length_of_decodeFrom {offset : Nat} {text bytes : List UInt8}
    (h : decodeFrom offset text = .ok bytes) : text.length = 2 * bytes.length := by
  have hlength := congrArg List.length (decodeFrom_eq_ok_iff.mp h)
  rwa [List.length_map, List.length_map, length_halves] at hlength

/-- The length is tested in front, and a text of the wrong length would not be read anyway. -/
theorem decode_eq_ok_iff_decodeFrom {text bytes : List UInt8} :
    decode text = .ok bytes ↔ decodeFrom 0 text = .ok bytes := by
  unfold decode
  by_cases hodd : text.length % 2 = 1
  · rw [if_pos hodd]
    refine ⟨fun h => absurd h (by simp), ?_⟩
    intro h
    have hlength := length_of_decodeFrom h
    omega
  · rw [if_neg hodd]

theorem length_of_decode {text bytes : List UInt8} (h : decode text = .ok bytes) :
    text.length = 2 * bytes.length :=
  length_of_decodeFrom (decode_eq_ok_iff_decodeFrom.mp h)

/-! ### Characters -/

theorem value?_toUInt8_iff {c : Char} (hc : c.toNat < 128) {n : Nat} (hn : n < 16) :
    value? c.toUInt8 = some n ↔ c.toUpper = digit n := by
  have hall : ∀ k < 128, ∀ n < 16,
      value? (Char.ofNat k).toUInt8 = some n ↔ (Char.ofNat k).toUpper = digit n := by decide +kernel
  have hchar := hall c.toNat hc n hn
  rwa [Char.ofNat_toNat] at hchar

theorem value?_eq_none_of_le {b : UInt8} (h : 128 ≤ b.toNat) : value? b = none := by
  unfold value?
  simp only [UInt8.le_iff_toNat_le, UInt8.reduceToNat]
  rw [if_neg (by omega), if_neg (by omega), if_neg (by omega)]

/-- A character that is not ASCII is its own capital, and no digit. -/
theorem toUpper_ne_digit {c : Char} (hc : ¬ c.toNat < 128) {n : Nat} (hn : n < 16) :
    c.toUpper ≠ digit n := by
  have hdigit : ∀ n < 16, (digit n).toNat < 128 := by decide
  have hsame : c.toUpper = c := by
    apply dif_neg
    intro hlower
    exact hc (Nat.lt_of_le_of_lt (UInt32.le_iff_toNat_le.mp hlower.2) (by decide))
  intro heq
  rw [hsame] at heq
  exact hc (heq ▸ hdigit n hn)

theorem map_value?_iff {cs : List Char} {ns : List Nat} (h : ∀ n ∈ ns, n < 16) :
    (cs.flatMap String.utf8EncodeChar).map value? = ns.map some ↔
      cs.map Char.toUpper = ns.map digit := by
  induction cs generalizing ns with
  | nil => cases ns <;> simp
  | cons c rest ih =>
      cases ns with
      | nil => simp
      | cons n ns =>
          obtain ⟨hn, hns⟩ := List.forall_mem_cons.mp h
          by_cases hc : c.toNat < 128
          · rw [List.flatMap_cons, utf8EncodeChar_of_ascii hc]
            simp only [List.singleton_append, List.map_cons, List.cons.injEq, ih hns,
              value?_toUInt8_iff hc hn]
          · obtain ⟨b, bs, hb⟩ := List.exists_cons_of_ne_nil (utf8EncodeChar_ne_nil c)
            have hhigh : value? b = none :=
              value?_eq_none_of_le (le_of_mem_utf8EncodeChar hc b (by simp [hb]))
            simp [hb, hhigh, toUpper_ne_digit hc hn]

theorem toUpper_eq_encode_iff {text : String} {bytes : List UInt8} :
    text.toUpper = encode bytes ↔ text.toList.map Char.toUpper = bytes.flatMap digits := by
  rw [encode, ← String.toList_inj, String.toUpper, String.toList_map, String.toList_ofList]

/-- **A text is read as some bytes when its capitals are the digits of the bytes.** -/
theorem decode_octets_eq_ok_iff {text : String} {bytes : List UInt8} :
    decode (octets text) = .ok bytes ↔ text.toUpper = encode bytes := by
  rw [decode_eq_ok_iff_decodeFrom, decodeFrom_eq_ok_iff, octets, map_value?_iff halves_lt,
    map_digit_halves, toUpper_eq_encode_iff]

/-! ### Texts of digits -/

theorem length_of_toUpper {text : String} {bytes : List UInt8} (h : text.toUpper = encode bytes) :
    text.length = 2 * bytes.length ∧ (octets text).length = 2 * bytes.length := by
  have hchars := congrArg List.length (toUpper_eq_encode_iff.mp h)
  rw [List.length_map, ← map_digit_halves, List.length_map, length_halves] at hchars
  exact ⟨hchars, length_of_decode (decode_octets_eq_ok_iff.mpr h)⟩

/-- The digits of hexadecimal text, in either case. -/
def letters : List Char := "0123456789ABCDEFabcdef".toList

theorem mem_letters_iff {c : Char} : c ∈ letters ↔ ∃ n < 16, c.toUpper = digit n := by
  have hall : ∀ k < 128, Char.ofNat k ∈ letters ↔ ∃ n < 16, (Char.ofNat k).toUpper = digit n := by
    decide +kernel
  have hascii : letters.all (fun d => d.toNat < 128) = true := rfl
  by_cases hc : c.toNat < 128
  · have hchar := hall c.toNat hc
    rwa [Char.ofNat_toNat] at hchar
  · refine ⟨fun h => absurd (of_decide_eq_true (List.all_eq_true.mp hascii c h)) hc, ?_⟩
    intro hparts
    obtain ⟨n, hn, heq⟩ := hparts
    exact absurd heq (toUpper_ne_digit hc hn)

theorem exists_bytes_of_letters {n : Nat} :
    ∀ {cs : List Char}, cs.length = 2 * n → (∀ c ∈ cs, c ∈ letters) →
      ∃ bytes : List UInt8, bytes.length = n ∧ cs.map Char.toUpper = bytes.flatMap digits := by
  induction n with
  | zero =>
      intro cs hlength _
      exact ⟨[], rfl, by rw [List.eq_nil_of_length_eq_zero hlength]; rfl⟩
  | succ n ih =>
      intro cs hlength hall
      match cs, hlength, hall with
      | high :: low :: rest, hlength, hall =>
        obtain ⟨h, hh, hhigh⟩ := mem_letters_iff.mp (hall high (by simp))
        obtain ⟨l, hl, hlow⟩ := mem_letters_iff.mp (hall low (by simp))
        have hshorter : rest.length = 2 * n := by
          rw [List.length_cons, List.length_cons] at hlength
          omega
        obtain ⟨bytes, hbytes, hrest⟩ := ih hshorter fun c hc => hall c (by simp [hc])
        have hbyte : (UInt8.ofNat (16 * h + l)).toNat = 16 * h + l :=
          UInt8.toNat_ofNat'.trans (Nat.mod_eq_of_lt (by omega))
        have hdigits : digits (UInt8.ofNat (16 * h + l)) = [digit h, digit l] := by
          rw [digits, hbyte, show (16 * h + l) / 16 = h by omega,
            show (16 * h + l) % 16 = l by omega]
        refine ⟨UInt8.ofNat (16 * h + l) :: bytes, by rw [List.length_cons, hbytes], ?_⟩
        rw [List.map_cons, List.map_cons, hhigh, hlow, hrest, List.flatMap_cons, hdigits]
        rfl

/-- **A text spells as many bytes as half its length when it consists of digits.** -/
theorem exists_toUpper_eq_encode_iff {text : String} {n : Nat} :
    (∃ bytes : List UInt8, bytes.length = n ∧ text.toUpper = encode bytes) ↔
      text.length = 2 * n ∧ ∀ c ∈ text.toList, c ∈ letters := by
  simp only [toUpper_eq_encode_iff]
  refine ⟨?_, fun h => exists_bytes_of_letters h.1 h.2⟩
  intro hparts
  obtain ⟨bytes, rfl, heq⟩ := hparts
  refine ⟨(length_of_toUpper (toUpper_eq_encode_iff.mpr heq)).1, ?_⟩
  intro c hc
  rw [← map_digit_halves] at heq
  have hmem : c.toUpper ∈ (halves bytes).map digit := heq ▸ List.mem_map_of_mem hc
  obtain ⟨n, hn, hdigit⟩ := List.mem_map.mp hmem
  exact mem_letters_iff.mpr ⟨n, halves_lt n hn, hdigit.symm⟩

/-- An even number of hexadecimal digits, in either case. -/
def IsText (text : String) : Prop :=
  text.length % 2 = 0 ∧ ∀ c ∈ text.toList, c ∈ letters

theorem isText_iff {text : String} :
    IsText text ↔ ∃ bytes : List UInt8, text.toUpper = encode bytes := by
  refine ⟨?_, ?_⟩
  · intro h
    obtain ⟨heven, hdigits⟩ := h
    have hlength : text.length = 2 * (text.length / 2) := by omega
    obtain ⟨bytes, -, hbytes⟩ := exists_toUpper_eq_encode_iff.mpr ⟨hlength, hdigits⟩
    exact ⟨bytes, hbytes⟩
  · intro h
    obtain ⟨bytes, hbytes⟩ := h
    obtain ⟨hlength, hdigits⟩ := exists_toUpper_eq_encode_iff.mp ⟨bytes, rfl, hbytes⟩
    exact ⟨by omega, hdigits⟩

end AmountField.Hex
