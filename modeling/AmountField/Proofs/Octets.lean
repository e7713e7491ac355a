/-
Texts over ASCII letters and their bytes.

A format that tests bytes and a reader that tests characters agree as long as all that they let
through is ASCII.  A character below 128 is one byte, its number, and every byte of another
character is at least 128.  So a text whose bytes are among those of some ASCII letters is a text
of these letters, and no character is mistaken for the letters that a part of it looks like.
-/
import AmountField.Bytes
import Mathlib.Data.List.Basic

namespace AmountField

theorem utf8EncodeChar_of_ascii {c : Char} (h : c.toNat < 128) :
    String.utf8EncodeChar c = [c.toUInt8] := by
  apply String.utf8EncodeChar_eq_singleton
  rw [Char.utf8Size_eq_one_iff, UInt32.le_iff_toNat_le]
  exact Nat.le_of_lt_succ h

/-- The bytes of any other character are not ASCII. -/
theorem le_of_mem_utf8EncodeChar {c : Char} (h : ¬ c.toNat < 128) :
    ∀ b ∈ String.utf8EncodeChar c, 128 ≤ b.toNat := by
  have hc : ¬ c.val.toNat ≤ 127 := fun hle => h (Nat.lt_succ_of_le hle)
  unfold String.utf8EncodeChar
  rw [if_neg hc]
  -- one case for each length, and each byte has its top bit added to what is left of a remainder
  split_ifs <;>
  · simp only [List.forall_mem_cons, List.not_mem_nil, IsEmpty.forall_iff, implies_true, and_true,
      UInt8.toNat_ofNat']
    omega

theorem utf8EncodeChar_ne_nil (c : Char) : String.utf8EncodeChar c ≠ [] := by
  have hpos := c.utf8Size_pos
  rw [← String.length_utf8EncodeChar] at hpos
  exact List.ne_nil_of_length_pos hpos

theorem toNat_toUInt8_of_ascii {c : Char} (h : c.toNat < 128) : c.toUInt8.toNat = c.toNat :=
  (UInt32.toNat_toUInt8 _).trans (Nat.mod_eq_of_lt (Nat.lt_trans h (by decide)))

theorem eq_of_toUInt8_eq {c d : Char} (hc : c.toNat < 128) (hd : d.toNat < 128)
    (h : c.toUInt8 = d.toUInt8) : c = d := by
  have hnat := congrArg UInt8.toNat h
  rw [toNat_toUInt8_of_ascii hc, toNat_toUInt8_of_ascii hd] at hnat
  exact Char.toNat_inj.mp hnat

section

variable {letters : List Char} (hascii : ∀ d ∈ letters, d.toNat < 128)
include hascii

theorem forall_mem_utf8EncodeChar_iff (c : Char) :
    (∀ b ∈ String.utf8EncodeChar c, b ∈ letters.map Char.toUInt8) ↔ c ∈ letters := by
  have hbyte : ∀ b ∈ letters.map Char.toUInt8, b.toNat < 128 := by
    intro b hb
    obtain ⟨d, hd, rfl⟩ := List.mem_map.mp hb
    rw [toNat_toUInt8_of_ascii (hascii d hd)]
    exact hascii d hd
  by_cases hc : c.toNat < 128
  · rw [utf8EncodeChar_of_ascii hc, List.forall_mem_singleton, List.mem_map]
    refine ⟨?_, fun h => ⟨c, h, rfl⟩⟩
    intro hparts
    obtain ⟨d, hd, heq⟩ := hparts
    rwa [← eq_of_toUInt8_eq (hascii d hd) hc heq]
  · refine ⟨?_, fun h => absurd (hascii c h) hc⟩
    intro hall
    obtain ⟨b, hb⟩ := List.exists_mem_of_ne_nil _ (utf8EncodeChar_ne_nil c)
    exact absurd (hbyte b (hall b hb)) (Nat.not_lt.mpr (le_of_mem_utf8EncodeChar hc b hb))

/-- **A text has only bytes of the letters when it is a text of the letters.** -/
theorem forall_mem_octets_iff (text : String) :
    (∀ b ∈ octets text, b ∈ letters.map Char.toUInt8) ↔ ∀ c ∈ text.toList, c ∈ letters := by
  unfold octets
  simp only [List.forall_mem_flatMap, forall_mem_utf8EncodeChar_iff hascii]

theorem octets_of_ascii {cs : List Char} (h : ∀ c ∈ cs, c ∈ letters) :
    octets (String.ofList cs) = cs.map Char.toUInt8 := by
  rw [octets_ofList]
  induction cs with
  | nil => rfl
  | cons c rest ih =>
      rw [List.flatMap_cons, ih fun d hd => h d (by simp [hd]),
        utf8EncodeChar_of_ascii (hascii c (h c (by simp)))]
      rfl

end

end AmountField
