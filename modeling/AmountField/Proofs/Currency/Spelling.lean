/-
A currency has one code, and a text that is read as a currency is its code or its digits.

Reading tries three spellings in turn, and `ofCode_eq_ok_iff` says what each of them lets through.
They are told apart by the length of the text, so no order of the tests is lost in it: the native
code is the one text that is both a name of its own and three characters, and it is taken first.

Writing chooses among the same three.  Three code characters are ASCII, so they stand in their block
as they are and are found there again.  For digits it is the other way round: what they spell may
have a shorter code, and where it has none the digits are written back as capitals.
-/
import AmountField.Proofs.Currency
import AmountField.Proofs.Hex

namespace AmountField.Currency

/-- The block that has no code is zeros but for the native code in its place. -/
theorem eq_spelledNative_iff {c : Currency} :
    c = spelledNative ↔
      c.block.bytes = List.replicate 12 0 ++ octets "XRP" ++ List.replicate 5 0 := by
  refine ⟨fun h => h ▸ rfl, ?_⟩
  intro hbytes
  cases c
  exact congrArg Currency.mk (Block.ext hbytes)

/-! ### Three characters -/

/-- A text of three characters of the code alphabet. -/
def IsStandardCode (code : String) : Prop :=
  code.length = 3 ∧ ∀ c ∈ code.toList, isCodeChar c = true

instance : DecidablePred IsStandardCode := fun code =>
  decidable_of_iff (code.length = 3 ∧ code.toList.all isCodeChar = true)
    (and_congr_right' List.all_eq_true)

theorem isStandardCode_iff {code : String} :
    IsStandardCode code ↔
      ∃ x y z, code.toList = [x, y, z] ∧ [x, y, z].all isCodeChar = true := by
  refine ⟨?_, ?_⟩
  · intro h
    obtain ⟨hlength, hall⟩ := h
    obtain ⟨x, y, z, hchars⟩ := List.length_eq_three.mp hlength
    rw [hchars] at hall
    exact ⟨x, y, z, hchars, List.all_eq_true.mpr hall⟩
  · intro hparts
    obtain ⟨x, y, z, hchars, hall⟩ := hparts
    refine ⟨congrArg List.length hchars, ?_⟩
    rw [hchars]
    exact List.all_eq_true.mp hall

theorem toNat_lt_of_isCodeChar {c : Char} (h : isCodeChar c = true) : c.toNat < 128 := by
  have hsymbols : codeSymbols.all (fun d => d.toNat < 128) = true := rfl
  rcases Bool.or_eq_true_iff.mp h with halnum | hsymbol
  · rcases Bool.or_eq_true_iff.mp halnum with halpha | hdigit
    · rcases Bool.or_eq_true_iff.mp halpha with hupper | hlower
      · have hle : c.toNat ≤ 'Z'.toNat := (of_decide_eq_true hupper).2
        exact Nat.lt_of_le_of_lt hle (by decide)
      · have hle : c.toNat ≤ 'z'.toNat := of_decide_eq_true (Bool.and_eq_true_iff.mp hlower).2
        exact Nat.lt_of_le_of_lt hle (by decide)
    · exact Nat.lt_of_le_of_lt (Char.isDigit_iff_toNat.mp hdigit).2 (by decide)
  · exact of_decide_eq_true (List.all_eq_true.mp hsymbols c (List.contains_iff_mem.mp hsymbol))

theorem ofUInt8_toUInt8 {c : Char} (h : isCodeChar c = true) : Char.ofUInt8 c.toUInt8 = c := by
  have hc := toNat_lt_of_isCodeChar h
  apply Char.toNat_inj.mp
  show c.toUInt8.toUInt32.toNat = c.toNat
  rw [UInt8.toNat_toUInt32, toNat_toUInt8_of_ascii hc]

/-- **The characters of a standard block are its code**, unless they are the native code. -/
theorem toCode_standardBlock {x y z : Char} (hall : [x, y, z].all isCodeChar = true)
    (hne : [x, y, z] ≠ nativeCode.toList) :
    toCode ⟨standardBlock x.toUInt8 y.toUInt8 z.toUInt8⟩ = .ok (String.ofList [x, y, z]) := by
  have hcode : ∀ c ∈ [x, y, z], isCodeChar c = true := List.all_eq_true.mp hall
  have hx := hcode x (by simp)
  have hmap : [x.toUInt8, y.toUInt8, z.toUInt8].map Char.ofUInt8 = [x, y, z] := by
    simp only [List.map_cons, List.map_nil, ofUInt8_toUInt8 hx, ofUInt8_toUInt8 (hcode y (by simp)),
      ofUInt8_toUInt8 (hcode z (by simp))]
  have hnative : ¬ isNative ⟨standardBlock x.toUInt8 y.toUInt8 z.toUInt8⟩ = true := by
    intro h
    have hzero : x.toUInt8 = 0 :=
      of_decide_eq_true (List.all_eq_true.mp h x.toUInt8 (by simp [standardBlock]))
    rw [← ofUInt8_toUInt8 hx, hzero] at hx
    cases hx
  have hbytes : standardBytes? (standardBlock x.toUInt8 y.toUInt8 z.toUInt8)
      = some [x.toUInt8, y.toUInt8, z.toUInt8] := rfl
  unfold toCode
  rw [if_neg hnative, hbytes]
  simp only [hmap]
  rw [if_neg hne, if_pos hall]

/-! ### Digits -/

/-- A text of forty hexadecimal digits, in either case. -/
def IsHexCode (code : String) : Prop :=
  code.length = 40 ∧ ∀ c ∈ code.toList, c ∈ Hex.letters

instance : DecidablePred IsHexCode := fun code =>
  decidable_of_iff (code.length = 40 ∧ code.toList.all Hex.letters.contains = true)
    (by simp [IsHexCode])

theorem isHexCode_iff {code : String} :
    IsHexCode code ↔ ∃ c : Currency, code.toUpper = c.toHexCode := by
  rw [IsHexCode, show 40 = 2 * 20 from rfl, ← Hex.exists_toUpper_eq_encode_iff]
  refine ⟨?_, ?_⟩
  · intro hparts
    obtain ⟨bytes, hlength, heq⟩ := hparts
    exact ⟨⟨⟨bytes, hlength⟩⟩, heq⟩
  · intro hparts
    obtain ⟨c, heq⟩ := hparts
    exact ⟨c.block.bytes, c.block.length_eq, heq⟩

theorem length_octets_of_digits {code : String} {c : Currency} (h : code.toUpper = c.toHexCode) :
    (octets code).length = 40 := by
  have hbytes := (Hex.length_of_toUpper h).2
  rwa [c.block.length_eq] at hbytes

theorem ofHexCode_eq_ok_iff {code : String} {c : Currency} :
    ofHexCode code = .ok c ↔ code.toUpper = c.toHexCode := by
  rw [toHexCode, ← Hex.decode_octets_eq_ok_iff]
  unfold ofHexCode
  cases Hex.decode (octets code) with
  | error fault => simp
  | ok bytes =>
      rw [Except.ok.injEq, ← Block.ofList?_eq_some_iff]
      cases hblock : Block.ofList? 20 bytes with
      | none => simp [hblock]
      | some block =>
          simp only [hblock, Except.ok.injEq, Option.some.injEq]
          exact ⟨fun h => congrArg Currency.block h, fun h => congrArg Currency.mk h⟩

/-! ### The three spellings -/

theorem ofCode_of_three {code : String} {x y z : Char} (hchars : code.toList = [x, y, z])
    (hne : code ≠ nativeCode) (hall : [x, y, z].all isCodeChar = true) :
    ofCode code = .ok ⟨standardBlock x.toUInt8 y.toUInt8 z.toUInt8⟩ := by
  simp only [List.all_cons, List.all_nil, Bool.and_true, ← Bool.and_assoc] at hall
  unfold ofCode
  rw [if_neg hne, hchars]
  exact if_pos hall

/-- **A text is read as a currency when it is one of its spellings.** -/
theorem ofCode_eq_ok_iff {code : String} {c : Currency} :
    ofCode code = .ok c ↔
      (code = nativeCode ∧ c = native) ∨
      (code ≠ nativeCode ∧ ∃ x y z, code.toList = [x, y, z] ∧ [x, y, z].all isCodeChar = true ∧
        c = ⟨standardBlock x.toUInt8 y.toUInt8 z.toUInt8⟩) ∨
      code.toUpper = c.toHexCode := by
  refine ⟨?_, ?_⟩
  · intro h
    unfold ofCode at h
    split at h
    · rename_i hnative
      cases h
      exact Or.inl ⟨hnative, rfl⟩
    · rename_i hnative
      split at h
      · rename_i x y z hchars
        split at h
        · rename_i hall
          cases h
          refine Or.inr (Or.inl ⟨hnative, x, y, z, hchars, ?_, rfl⟩)
          simpa only [List.all_cons, List.all_nil, Bool.and_true, ← Bool.and_assoc] using hall
        · cases h
      · split at h
        · exact Or.inr (Or.inr (ofHexCode_eq_ok_iff.mp h))
        · cases h
  · intro hcases
    rcases hcases with ⟨rfl, rfl⟩ | ⟨hne, x, y, z, hchars, hall, rfl⟩ | hdigits
    · rfl
    · exact ofCode_of_three hchars hne hall
    · rw [ofCode_of_length (length_octets_of_digits hdigits)]
      exact ofHexCode_eq_ok_iff.mpr hdigits

theorem toCode_of_length_three {code : String} {c : Currency} (h : ofCode code = .ok c)
    (hlength : code.length = 3) : c.toCode = .ok code := by
  rcases ofCode_eq_ok_iff.mp h with ⟨rfl, rfl⟩ | ⟨hne, x, y, z, hchars, hall, rfl⟩ | hdigits
  · rfl
  · have hcode : code = String.ofList [x, y, z] := by rw [← hchars, String.ofList_toList]
    rw [toCode_standardBlock hall, ← hcode]
    intro heq
    exact hne (by rw [hcode, heq]; rfl)
  · have hforty := (isHexCode_iff.mpr ⟨c, hdigits⟩).1
    omega

/-- The texts that are read as a currency. -/
theorem exists_ofCode_iff {code : String} :
    (∃ c, ofCode code = .ok c) ↔ code = nativeCode ∨ IsStandardCode code ∨ IsHexCode code := by
  refine ⟨?_, ?_⟩
  · intro hparts
    obtain ⟨c, h⟩ := hparts
    rcases ofCode_eq_ok_iff.mp h with ⟨hnative, -⟩ | ⟨-, x, y, z, hchars, hall, -⟩ | hdigits
    · exact Or.inl hnative
    · exact Or.inr (Or.inl (isStandardCode_iff.mpr ⟨x, y, z, hchars, hall⟩))
    · exact Or.inr (Or.inr (isHexCode_iff.mpr ⟨c, hdigits⟩))
  · intro hcases
    by_cases hnative : code = nativeCode
    · exact ⟨native, by rw [hnative]; rfl⟩
    · rcases hcases.resolve_left hnative with hstandard | hhex
      · obtain ⟨x, y, z, hchars, hall⟩ := isStandardCode_iff.mp hstandard
        exact ⟨_, ofCode_of_three hchars hnative hall⟩
      · obtain ⟨c, hdigits⟩ := isHexCode_iff.mp hhex
        exact ⟨c, ofCode_eq_ok_iff.mpr (Or.inr (Or.inr hdigits))⟩

theorem toUpper_of_isHexCode {code : String} {c : Currency} (h : ofCode code = .ok c)
    (hhex : IsHexCode code) : code.toUpper = c.toHexCode := by
  obtain ⟨d, hdigits⟩ := isHexCode_iff.mp hhex
  rw [ofCode_eq_ok_iff.mpr (Or.inr (Or.inr hdigits))] at h
  cases h
  exact hdigits

/-! ### What is shown -/

/-- What is shown is the code, or the digits of the block that has no code. -/
theorem display_cases (c : Currency) :
    (c ≠ spelledNative ∧ c.toCode = .ok c.display) ∨
    (c = spelledNative ∧ c.toCode = .error .disallowedCurrency ∧ c.display = c.toHexCode) := by
  unfold display
  rcases c.toCode_cases with ⟨rfl, hcode⟩ | ⟨rfl, hcode⟩ | ⟨x, y, z, rfl, hne, hall, hcode⟩ |
    ⟨-, hne, hcode⟩
  · exact Or.inl ⟨by decide, rfl⟩
  · exact Or.inr ⟨rfl, rfl, rfl⟩
  · rw [hcode]
    refine Or.inl ⟨?_, rfl⟩
    intro heq
    rw [heq] at hcode
    cases hcode
  · rw [hcode]
    exact Or.inl ⟨hne, rfl⟩

/-- **Every currency is read back from what is shown of it.** -/
theorem ofCode_display (c : Currency) : ofCode c.display = .ok c := by
  rcases c.display_cases with ⟨-, hcode⟩ | ⟨-, -, hdisplay⟩
  · exact ofCode_of_toCode hcode
  · rw [hdisplay]
    exact ofCode_toHexCode c

theorem display_shape (c : Currency) : IsStandardCode c.display ∨ c.display = c.toHexCode := by
  unfold display
  have hnative : IsStandardCode nativeCode := by decide
  rcases c.toCode_cases with ⟨-, hcode⟩ | ⟨-, hcode⟩ | ⟨x, y, z, -, -, hall, hcode⟩ | ⟨-, -, hcode⟩
  · rw [hcode]
    exact Or.inl hnative
  · rw [hcode]
    exact Or.inr rfl
  · rw [hcode]
    exact Or.inl (isStandardCode_iff.mpr ⟨_, _, _, String.toList_ofList, hall⟩)
  · rw [hcode]
    exact Or.inr rfl

/--
**The code of a currency and the currency of a code are each other's normal forms.**  Every currency
is read back from what is shown of it, and what is shown is its code, save for the one block that
spells the native code out and has none.  A text is read as a currency exactly when it is the native
code, three code characters or forty digits.  Three characters are the code of the currency that
they are read as; digits are shown as their capitals, or as three characters that mean the same.
-/
theorem normal_forms :
    (∀ c : Currency, ofCode c.display = .ok c) ∧
    (∀ c : Currency,
      ((∃ cause, c.toCode = .error cause) ↔
        c.block.bytes = List.replicate 12 0 ++ octets "XRP" ++ List.replicate 5 0) ∧
      (c.block.bytes ≠ List.replicate 12 0 ++ octets "XRP" ++ List.replicate 5 0 →
        c.toCode = .ok c.display)) ∧
    (∀ code : String, (∃ c, ofCode code = .ok c) ↔
      code = "XRP" ∨ IsStandardCode code ∨ IsHexCode code) ∧
    (∀ (code : String) (c : Currency), ofCode code = .ok c →
      (code.length = 3 → c.toCode = .ok code) ∧
      (IsHexCode code →
        (c.display = code.toUpper ∨ IsStandardCode c.display) ∧ ofCode c.display = .ok c)) := by
  refine ⟨ofCode_display, ?_, fun _ => exists_ofCode_iff, ?_⟩
  · intro c
    rw [Ne, ← eq_spelledNative_iff]
    rcases c.display_cases with ⟨hne, hcode⟩ | ⟨heq, hcode, -⟩
    · simp [hne, hcode]
    · simp [heq.symm, hcode]
  · intro code c h
    refine ⟨toCode_of_length_three h, ?_⟩
    intro hhex
    refine ⟨?_, ofCode_display c⟩
    rw [toUpper_of_isHexCode h hhex]
    exact c.display_shape.symm

/-- A currency with no shorter code than its digits. -/
def longCode : Currency where
  block :=
    { bytes := [0x01, 0x58, 0x41, 0x55, 0, 0, 0, 0, 0xC1, 0xF7, 0x6F, 0xF6, 0xEC, 0xB0, 0xBA, 0xC6,
        0, 0, 0, 0]
      length_eq := rfl }

/-- Three characters are their own code, digits of that block are shown as the characters, small
digits of a block without a code as capitals, and the native code spelled out as its digits. -/
theorem normal_forms_of_dollar :
    Currency.toCode ⟨standardBlock 0x55 0x53 0x44⟩ = .ok "USD" ∧
      ofCode (display ⟨standardBlock 0x55 0x53 0x44⟩) = .ok ⟨standardBlock 0x55 0x53 0x44⟩ ∧
      (longCode.display = "0158415500000000C1F76FF6ECB0BAC600000000" ∨
        IsStandardCode longCode.display) ∧
      longCode.toCode = .ok longCode.display ∧
      (∃ cause, spelledNative.toCode = .error cause) := by
  obtain ⟨-, hcode, -, hread⟩ := normal_forms
  have hthree : ofCode "USD" = .ok ⟨standardBlock 0x55 0x53 0x44⟩ := rfl
  have hdigits : ofCode "0000000000000000000000005553440000000000"
      = .ok ⟨standardBlock 0x55 0x53 0x44⟩ := rfl
  have hsmall : ofCode "0158415500000000c1f76ff6ecb0bac600000000" = .ok longCode := rfl
  have hcapitals : "0158415500000000c1f76ff6ecb0bac600000000".toUpper
      = "0158415500000000C1F76FF6ECB0BAC600000000" := by decide +kernel
  refine ⟨(hread _ _ hthree).1 rfl, ((hread _ _ hdigits).2 (by decide)).2, ?_,
    (hcode longCode).2 (by decide), (hcode spelledNative).1.mpr (by decide)⟩
  rw [← hcapitals]
  exact ((hread _ _ hsmall).2 (by decide)).1

end AmountField.Currency
