/-
Base-58 text is a numeral, and texts over the alphabet and byte strings correspond one to one.

`numeral` writes a number as one does by hand: the digits of the number in base 58, the most
significant one first, each by its letter, and nothing for zero.  The text of a byte string is the
numeral of the number that its bytes spell in base 256, behind one `r` for each zero in front,
which the number forgets.
-/
import AmountField.Proofs.Base58

namespace AmountField.Base58

/-- The number in the letters of the alphabet, most significant digit first. -/
def numeral (n : Nat) : List Char := (Nat.digits 58 n).reverse.map fun d => alphabet.getD d 'r'

/-- The number that letters spell, most significant digit first. -/
def numberOf (cs : List Char) : Nat := Nat.ofDigits 58 (cs.reverse.map fun c => alphabet.idxOf c)

theorem numeral_zero : numeral 0 = [] := rfl

theorem mem_alphabet_of_mem_numeral {n : Nat} {c : Char} (h : c ∈ numeral n) : c ∈ alphabet := by
  obtain ⟨d, hd, rfl⟩ := List.mem_map.mp h
  exact getD_mem_alphabet (Nat.digits_lt_base (by decide) (List.mem_reverse.mp hd))

theorem idxOf_getD {d : Nat} (h : d < 58) : alphabet.idxOf (alphabet.getD d 'r') = d := by
  have hall : ∀ n : Fin 58, alphabet.idxOf (alphabet.getD n 'r') = n := by decide
  exact hall ⟨d, h⟩

theorem numberOf_numeral (n : Nat) : numberOf (numeral n) = n := by
  have hdigits : (Nat.digits 58 n).map (fun d => alphabet.idxOf (alphabet.getD d 'r'))
      = Nat.digits 58 n := by
    conv_rhs => rw [← List.map_id (Nat.digits 58 n)]
    exact List.map_congr_left fun d hd => idxOf_getD (Nat.digits_lt_base (by decide) hd)
  rw [numberOf, numeral, ← List.map_reverse, List.reverse_reverse, List.map_map,
    Function.comp_def, hdigits, Nat.ofDigits_digits]

theorem head?_numeral (n : Nat) : (numeral n).head? ≠ some 'r' := by
  intro h
  rw [numeral, List.head?_map, List.head?_reverse] at h
  obtain ⟨d, hd, hletter⟩ := Option.map_eq_some_iff.mp h
  have hmem : d ∈ Nat.digits 58 n := List.mem_of_getLast? hd
  have hzero : d = 0 := by
    rw [← idxOf_getD (Nat.digits_lt_base (by decide) hmem), hletter]
    rfl
  have hne := List.ne_nil_of_mem hmem
  rw [List.getLast?_eq_getLast_of_ne_nil hne] at hd
  rw [← Option.some.inj hd] at hzero
  exact Nat.getLast_digit_ne_zero 58 (Nat.digits_ne_nil_iff_ne_zero.mp hne) hzero

theorem map_letter_renumber (bytes : List UInt8) :
    (Radix.renumber byteRadix radix bytes).reverse.map letter
      = numeral (byteRadix.value bytes) := by
  have hdigits : (Radix.renumber byteRadix radix bytes).map UInt8.toNat
      = Nat.digits 58 (byteRadix.value bytes) := Radix.renumber_digits byteRadix radix bytes
  rw [numeral, ← hdigits, ← List.map_reverse, List.map_map]
  rfl

/-- The text of bytes is a letter for each zero in front, and the numeral of the rest. -/
theorem encode_eq (bytes : List UInt8) :
    encode bytes = String.ofList (List.replicate (bytes.takeWhile (· = 0)).length 'r'
      ++ numeral (byteRadix.value (bytes.dropWhile (· = 0)))) := by
  have hzeros : (bytes.takeWhile (· = 0)).map letter
      = List.replicate (bytes.takeWhile (· = 0)).length 'r' := by
    conv_lhs => rw [Radix.takeWhile_zeros, List.map_replicate]
    rfl
  rw [encode, Radix.transcode, List.map_append, hzeros, map_letter_renumber,
    Radix.value_dropWhile_zeros]

/--
**Base-58 text is a numeral, and it is one to one.**  The text of bytes has one `r` for each zero
byte in front, and behind them the number of the other bytes in the letters of the alphabet; the
numeral of a number spells the number, is empty for zero and has no zero in front.  A text is read
as bytes exactly when it is their text, and is refused exactly when one of its UTF-8 bytes is not
in the alphabet.
-/
theorem numeral_bijection :
    (∀ bytes : List UInt8,
      encode bytes = String.ofList (List.replicate (bytes.takeWhile (· = 0)).length 'r'
        ++ numeral (byteRadix.value (bytes.dropWhile (· = 0))))) ∧
    (numeral 0 = [] ∧ ∀ n : Nat, numberOf (numeral n) = n ∧ (∀ c ∈ numeral n, c ∈ alphabet) ∧
      (numeral n).head? ≠ some 'r') ∧
    (∀ (text : String) (bytes : List UInt8),
      decode? text = some bytes ↔ text = encode bytes) ∧
    (∀ text : String,
      decode? text = none ↔ ∃ b ∈ octets text, b ∉ alphabet.map Char.toUInt8) := by
  refine ⟨encode_eq, ⟨numeral_zero, ?_⟩, fun _ _ => decode?_eq_some_iff,
    fun _ => decode?_eq_none_iff⟩
  intro n
  exact ⟨numberOf_numeral n, fun _ => mem_alphabet_of_mem_numeral, head?_numeral n⟩

end AmountField.Base58
