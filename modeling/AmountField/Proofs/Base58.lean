/-
Base-58 text is read back as the bytes that it was written from, and nothing else is read.

The letters of the alphabet stand for their digits one to one, which is decided over the 58 of
them, and the numeral underneath is the business of the module on radixes.  Rewriting a numeral
undoes itself in both directions, so a text that is read at all is the text of what it is read as.
-/
import AmountField.Base58.Basic
import AmountField.Proofs.Octets
import AmountField.Proofs.Radix
import Mathlib.Data.List.GetD

namespace AmountField.Base58

/-! ### Letters -/

theorem digit?_letter {d : UInt8} (h : d.toNat < 58) : digit? (letter d) = some d := by
  have hall : ∀ n : Fin 58, digit? (letter (UInt8.ofNat n)) = some (UInt8.ofNat n) := by decide
  have hd := hall ⟨d.toNat, h⟩
  rwa [UInt8.ofNat_toNat] at hd

theorem digit?_eq_some_iff {c : Char} {d : UInt8} :
    digit? c = some d ↔ c = letter d ∧ d.toNat < 58 := by
  refine ⟨?_, ?_⟩
  · intro h
    obtain ⟨i, hi, rfl⟩ := Option.map_eq_some_iff.mp h
    obtain ⟨hlt, hget, -⟩ := List.idxOf?_eq_some_iff.mp hi
    have hlt' : i < 58 := hlt
    have hnat : (UInt8.ofNat i).toNat = i :=
      (UInt8.toNat_ofNat').trans (Nat.mod_eq_of_lt (Nat.lt_trans hlt' (by decide)))
    refine ⟨?_, by rwa [hnat]⟩
    rw [letter, hnat, List.getD_eq_getElem _ _ hlt, hget]
  · intro hparts
    obtain ⟨rfl, hd⟩ := hparts
    exact digit?_letter hd

theorem digit?_eq_none_iff {c : Char} : digit? c = none ↔ c ∉ alphabet := by
  rw [digit?, Option.map_eq_none_iff, List.idxOf?_eq_none_iff]

theorem mapM_digit?_eq_some_iff {cs : List Char} {ds : List UInt8} :
    cs.mapM digit? = some ds ↔ cs = ds.map letter ∧ ∀ d ∈ ds, d.toNat < 58 := by
  induction cs generalizing ds with
  | nil =>
      refine ⟨?_, ?_⟩
      · intro h
        cases h
        simp
      · intro hparts
        rw [List.map_eq_nil_iff.mp hparts.1.symm]
        rfl
  | cons c rest ih =>
      rw [List.mapM_cons]
      refine ⟨?_, ?_⟩
      · intro h
        obtain ⟨d, hd, htail⟩ := Option.bind_eq_some_iff.mp h
        obtain ⟨es, hes, heq⟩ := Option.bind_eq_some_iff.mp htail
        cases heq
        obtain ⟨rfl, hlt⟩ := digit?_eq_some_iff.mp hd
        obtain ⟨rfl, hall⟩ := ih.mp hes
        exact ⟨rfl, List.forall_mem_cons.mpr ⟨hlt, hall⟩⟩
      · intro hparts
        obtain ⟨heq, hlt⟩ := hparts
        cases ds with
        | nil => cases heq
        | cons d es =>
            obtain ⟨rfl, hrest⟩ := List.cons.inj heq
            obtain ⟨hd, hes⟩ := List.forall_mem_cons.mp hlt
            rw [digit?_letter hd, ih.mpr ⟨hrest, hes⟩]
            rfl

theorem mapM_digit?_eq_none_iff {cs : List Char} :
    cs.mapM digit? = none ↔ ∃ c ∈ cs, c ∉ alphabet := by
  induction cs with
  | nil => simp
  | cons c rest ih =>
      rw [List.mapM_cons]
      simp only [List.mem_cons, exists_eq_or_imp, ← ih]
      rw [← digit?_eq_none_iff]
      cases digit? c with
      | none => simp
      | some d => cases rest.mapM digit? <;> simp

theorem alphabet_ascii : ∀ c ∈ alphabet, c.toNat < 128 := by
  have hall : alphabet.all (·.toNat < 128) = true := rfl
  intro c hc
  exact of_decide_eq_true (List.all_eq_true.mp hall c hc)

theorem getD_mem_alphabet {d : Nat} (h : d < 58) : alphabet.getD d 'r' ∈ alphabet := by
  rw [List.getD_eq_getElem _ _ (show d < alphabet.length from h)]
  exact List.getElem_mem _

/-! ### Texts -/

theorem toNat_lt_byteRadix (d : UInt8) : d.toNat < byteRadix.base := d.toNat_lt

/-- **A text is read as some bytes when it is the text of these bytes.** -/
theorem decode?_eq_some_iff {text : String} {bytes : List UInt8} :
    decode? text = some bytes ↔ text = encode bytes := by
  refine ⟨?_, ?_⟩
  · intro h
    obtain ⟨ds, hds, rfl⟩ := Option.map_eq_some_iff.mp h
    obtain ⟨hletters, hlt⟩ := mapM_digit?_eq_some_iff.mp hds
    rw [encode, Radix.transcode_transcode byteRadix hlt, ← hletters, String.ofList_toList]
  · rintro rfl
    have hdigits : (Radix.transcode byteRadix radix bytes).map letter
        = (Radix.transcode byteRadix radix bytes).map letter ∧
          ∀ d ∈ Radix.transcode byteRadix radix bytes, d.toNat < 58 :=
      ⟨rfl, fun d hd => Radix.transcode_lt hd⟩
    rw [decode?, encode, String.toList_ofList, mapM_digit?_eq_some_iff.mpr hdigits,
      Option.map_some, Radix.transcode_transcode radix fun d _ => toNat_lt_byteRadix d]

theorem decode?_encode (bytes : List UInt8) : decode? (encode bytes) = some bytes :=
  decode?_eq_some_iff.mpr rfl

theorem decode?_eq_none_iff {text : String} :
    decode? text = none ↔ ∃ b ∈ octets text, b ∉ alphabet.map Char.toUInt8 := by
  have hbytes := not_congr (forall_mem_octets_iff alphabet_ascii text)
  push Not at hbytes
  rw [decode?, Option.map_eq_none_iff, mapM_digit?_eq_none_iff, hbytes]

/-- Base-58 text has fewer than three bytes for two, and those of an address fit in 39. -/
theorem length_octets_encode_le {bytes : List UInt8} (h : bytes.length ≤ 25) :
    (octets (encode bytes)).length ≤ bytes.length + 14 := by
  have hletters : ∀ c ∈ (Radix.transcode byteRadix radix bytes).map letter, c ∈ alphabet := by
    intro c hc
    obtain ⟨d, hd, rfl⟩ := List.mem_map.mp hc
    exact getD_mem_alphabet (Radix.transcode_lt hd)
  rw [encode, octets_of_ascii alphabet_ascii hletters, List.length_map, List.length_map]
  apply Radix.length_transcode_le fun d _ => toNat_lt_byteRadix d
  intro m hm
  calc byteRadix.base ^ m ≤ (58 * 5) ^ m := Nat.pow_le_pow_left (by decide) m
    _ = 58 ^ m * 5 ^ m := Nat.mul_pow 58 5 m
    _ ≤ 58 ^ m * 58 ^ 14 := Nat.mul_le_mul_left _ (by
      calc 5 ^ m ≤ 5 ^ 25 := Nat.pow_le_pow_right (by decide) (by omega)
        _ ≤ 58 ^ 14 := by decide)
    _ = radix.base ^ (m + 14) := (Nat.pow_add 58 m 14).symm

end AmountField.Base58
