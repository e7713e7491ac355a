/-
Every code of a currency is read back as the currency.

`toCode` chooses between three spellings, and `toCode_cases` says which currency has which: the
block of zeros the native code, a block that is zero around three code characters those
characters, and every other block its digits.  One block is left over, the one that spells the
native code out, and it has no code.

Reading a code back is then a case for each spelling.  They cannot be confused: three characters
are never the length of the digits, and the native code is the one standard block that no code
names.
-/
import AmountField.Currency

namespace AmountField.Currency

/-! ### Standard blocks -/

theorem toUInt8_ofUInt8 (b : UInt8) : (Char.ofUInt8 b).toUInt8 = b := UInt8.toUInt8_toUInt32 b

theorem isNative_iff {c : Currency} : c.isNative = true ↔ c = native := by
  refine ⟨?_, ?_⟩
  · intro h
    have hzeros : ∀ b ∈ c.block.bytes, b = 0 := by
      simpa [isNative, Block.isZero] using h
    have hbytes : c.block.bytes = List.replicate 20 0 := by
      rw [List.eq_replicate_iff]
      exact ⟨c.block.length_eq, hzeros⟩
    cases c
    exact congrArg Currency.mk (Block.ext hbytes)
  · intro heq
    subst heq
    rfl

/-- The blocks with three bytes to read are the standard ones. -/
theorem standardBytes?_eq_some_iff {block : Block 20} {bytes : List UInt8} :
    standardBytes? block = some bytes ↔
      ∃ x y z, bytes = [x, y, z] ∧ block = standardBlock x y z := by
  refine ⟨?_, ?_⟩
  · intro h
    unfold standardBytes? at h
    simp only [Bool.and_eq_true, List.all_eq_true, beq_iff_eq] at h
    split at h
    · rename_i hzeros
      obtain ⟨hlead, htrail⟩ := hzeros
      have hlength := block.length_eq
      have hlead' : block.bytes.take leadLength = List.replicate leadLength 0 := by
        rw [List.eq_replicate_iff]
        refine ⟨?_, hlead⟩
        rw [List.length_take, hlength]
        rfl
      have htrail' : (block.bytes.drop leadLength).drop 3 = List.replicate trailLength 0 := by
        rw [List.eq_replicate_iff]
        refine ⟨?_, htrail⟩
        rw [List.length_drop, List.length_drop, hlength]
        rfl
      have hmiddle : ((block.bytes.drop leadLength).take 3).length = 3 := by
        rw [List.length_take, List.length_drop, hlength]
        rfl
      have hbytes : bytes = (block.bytes.drop leadLength).take 3 := (Option.some.inj h).symm
      rw [← hbytes] at hmiddle
      match bytes, hmiddle, hbytes with
      | [x, y, z], _, hbytes =>
        refine ⟨x, y, z, rfl, Block.ext ?_⟩
        show block.bytes = List.replicate leadLength 0 ++ [x, y, z] ++ List.replicate trailLength 0
        rw [hbytes, ← hlead', ← htrail', List.append_assoc, List.take_append_drop,
          List.take_append_drop]
    · cases h
  · intro hparts
    obtain ⟨x, y, z, rfl, rfl⟩ := hparts
    rfl

/-- The block that spells the native code out. -/
def spelledNative : Currency := ⟨standardBlock 0x58 0x52 0x50⟩

/-! ### Codes -/

/-- Which code a currency has. -/
theorem toCode_cases (c : Currency) :
    (c = native ∧ c.toCode = .ok nativeCode) ∨
    (c = spelledNative ∧ c.toCode = .error .disallowedCurrency) ∨
    (∃ x y z : UInt8, c = ⟨standardBlock x y z⟩ ∧
      [Char.ofUInt8 x, Char.ofUInt8 y, Char.ofUInt8 z] ≠ nativeCode.toList ∧
      [Char.ofUInt8 x, Char.ofUInt8 y, Char.ofUInt8 z].all isCodeChar = true ∧
      c.toCode = .ok (String.ofList [Char.ofUInt8 x, Char.ofUInt8 y, Char.ofUInt8 z])) ∨
    (c ≠ native ∧ c ≠ spelledNative ∧ c.toCode = .ok c.toHexCode) := by
  unfold toCode
  by_cases hnative : c.isNative = true
  · exact Or.inl ⟨isNative_iff.mp hnative, if_pos hnative⟩
  · have hne : c ≠ native := mt isNative_iff.mpr hnative
    rw [if_neg hnative]
    cases hbytes : standardBytes? c.block with
    | none =>
        refine Or.inr (Or.inr (Or.inr ⟨hne, ?_, rfl⟩))
        intro heq
        subst heq
        cases hbytes
    | some bytes =>
        obtain ⟨x, y, z, rfl, hblock⟩ := standardBytes?_eq_some_iff.mp hbytes
        have hc : c = ⟨standardBlock x y z⟩ := by rw [← hblock]
        simp only [List.map_cons, List.map_nil]
        by_cases hspelled : [Char.ofUInt8 x, Char.ofUInt8 y, Char.ofUInt8 z] = nativeCode.toList
        · rw [if_pos hspelled]
          refine Or.inr (Or.inl ⟨?_, rfl⟩)
          have hcodes : [x, y, z] = [0x58, 0x52, 0x50] := by
            have hmap := congrArg (List.map Char.toUInt8) hspelled
            simp only [List.map_cons, List.map_nil, toUInt8_ofUInt8] at hmap
            exact hmap
          simp only [List.cons.injEq, and_true] at hcodes
          obtain ⟨rfl, rfl, rfl⟩ := hcodes
          exact hc
        · rw [if_neg hspelled]
          by_cases hall : [Char.ofUInt8 x, Char.ofUInt8 y, Char.ofUInt8 z].all isCodeChar = true
          · rw [if_pos hall]
            exact Or.inr (Or.inr (Or.inl ⟨x, y, z, hc, hspelled, hall, rfl⟩))
          · rw [if_neg hall]
            refine Or.inr (Or.inr (Or.inr ⟨hne, ?_, rfl⟩))
            intro heq
            subst heq
            cases hbytes
            exact hspelled rfl

/-- A currency has a code unless it spells the native code out. -/
theorem exists_toCode {c : Currency} (h : c ≠ spelledNative) : ∃ code, c.toCode = .ok code := by
  rcases c.toCode_cases with ⟨-, hcode⟩ | ⟨heq, -⟩ | ⟨x, y, z, -, -, -, hcode⟩ | ⟨-, -, hcode⟩
  · exact ⟨_, hcode⟩
  · exact absurd heq h
  · exact ⟨_, hcode⟩
  · exact ⟨_, hcode⟩

theorem ofCode_of_length {code : String} (h : (octets code).length = 40) :
    ofCode code = ofHexCode code := by
  have hchars := (length_octets_bounds code).2
  unfold ofCode
  rw [if_neg ?_]
  · split
    · rename_i heq
      rw [heq] at hchars
      simp at hchars
      omega
    · rw [if_pos h]
  · intro heq
    subst heq
    cases h

theorem ofCode_toHexCode (c : Currency) : ofCode c.toHexCode = .ok c := by
  have hlength : (octets c.toHexCode).length = 40 := by
    rw [toHexCode, Hex.length_octets_encode, c.block.length_eq]
  rw [ofCode_of_length hlength, ofHexCode, toHexCode, Hex.decode_encode]
  simp only [Block.ofList?_bytes]

/-- **The code of a currency is read back as the currency.** -/
theorem ofCode_of_toCode {c : Currency} {code : String} (h : c.toCode = .ok code) :
    ofCode code = .ok c := by
  rcases c.toCode_cases with
    ⟨rfl, hcode⟩ | ⟨-, hcode⟩ | ⟨x, y, z, rfl, hne, hall, hcode⟩ | ⟨-, -, hcode⟩
  · rw [hcode] at h
    cases h
    rfl
  · rw [hcode] at h
    cases h
  · rw [hcode] at h
    cases h
    have hnative : String.ofList [Char.ofUInt8 x, Char.ofUInt8 y, Char.ofUInt8 z] ≠ nativeCode := by
      intro heq
      apply hne
      rw [← heq, String.toList_ofList]
    unfold ofCode
    rw [if_neg hnative]
    simp only [String.toList_ofList]
    simp only [List.all_cons, List.all_nil, Bool.and_true, ← Bool.and_assoc] at hall
    rw [if_pos hall, toUInt8_ofUInt8, toUInt8_ofUInt8, toUInt8_ofUInt8]
  · rw [hcode] at h
    cases h
    exact ofCode_toHexCode c

end AmountField.Currency
