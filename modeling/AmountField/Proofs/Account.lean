/-
An account has two spellings, its digits in either case and its address, and no others are read.

Digits are tried before the address, so an address must not look like digits.  It cannot: the
digits of an account are 40 bytes and the address of 20 bytes, a version and a checksum is at
most 39.  For the same reason nothing is gained where 40 bytes that are not digits are tried as an
address.  What is left are the two readers by themselves, and each reads what its writer writes.
-/
import AmountField.Account
import AmountField.Proofs.Base58.Check
import AmountField.Proofs.Failure
import AmountField.Proofs.Hex

namespace AmountField.Account

/-! ### Digits -/

theorem ofHexAddress?_eq_some_iff {text : String} {a : Account} :
    ofHexAddress? text = some a ↔ text.toUpper = Hex.encode a.block.bytes := by
  rw [← Hex.decode_octets_eq_ok_iff]
  unfold ofHexAddress?
  cases Hex.decode (octets text) with
  | error fault => simp
  | ok bytes =>
      rw [Option.map_eq_some_iff, Except.ok.injEq]
      refine ⟨?_, ?_⟩
      · intro hparts
        obtain ⟨block, hblock, rfl⟩ := hparts
        exact Block.ofList?_eq_some_iff.mp hblock
      · intro hbytes
        exact ⟨a.block, Block.ofList?_eq_some_iff.mpr hbytes, rfl⟩

theorem length_of_digits {text : String} {a : Account}
    (h : text.toUpper = Hex.encode a.block.bytes) :
    text.length = 40 ∧ (octets text).length = 40 := by
  have hlength := Hex.length_of_toUpper h
  rwa [a.block.length_eq] at hlength

/-! ### Addresses -/

theorem length_toAddress_lt (a : Account) : (octets a.toAddress).length < 40 := by
  have hbody : (addressVersion :: a.block.bytes
      ++ Base58.Check.checksum (addressVersion :: a.block.bytes)).length = 25 := by
    rw [List.length_append, List.length_cons, a.block.length_eq, Base58.Check.length_checksum]
    rfl
  have hle := Base58.length_octets_encode_le (Nat.le_of_eq hbody)
  rw [hbody] at hle
  exact Nat.lt_succ_of_le hle

theorem ofBase58_eq_ok_iff {text : String} {a : Account} :
    ofBase58 text = .ok a ↔ text = a.toAddress := by
  rw [toAddress, ← Base58.Check.decode_eq_ok_iff]
  unfold ofBase58
  cases Base58.Check.decode addressVersion text with
  | error fault => simp
  | ok payload =>
      rw [Except.ok.injEq, ← Block.ofList?_eq_some_iff]
      cases hblock : Block.ofList? 20 payload with
      | none => simp [hblock]
      | some block =>
          simp only [hblock, Except.ok.injEq, Option.some.injEq]
          exact ⟨fun h => congrArg Account.block h, fun h => congrArg Account.mk h⟩

/-! ### Both -/

/-- A text is read as an account when it is one of its two spellings. -/
theorem ofAddress_eq_ok_iff {text : String} {a : Account} :
    ofAddress text = .ok a ↔ text.toUpper = Hex.encode a.block.bytes ∨ text = a.toAddress := by
  rw [← ofHexAddress?_eq_some_iff, ← ofBase58_eq_ok_iff]
  unfold ofAddress
  cases hhex : ofHexAddress? text with
  | none => simp
  | some b =>
      have hnot : ofBase58 text ≠ .ok a := by
        intro h
        have hlength := (length_of_digits (ofHexAddress?_eq_some_iff.mp hhex)).2
        rw [ofBase58_eq_ok_iff.mp h] at hlength
        exact absurd hlength (Nat.ne_of_lt a.length_toAddress_lt)
      simp [hnot]

/-- **An account is read back from its address.** -/
theorem ofAddress_toAddress (a : Account) : ofAddress a.toAddress = .ok a :=
  ofAddress_eq_ok_iff.mpr (Or.inr rfl)

/--
**A text names an account in two ways and no others.**  It is the 40 digits of the account, each
letter in either case, or the address, which is read back and never has 40 bytes; so no text of 40
bytes is accepted as an address, whether it is digits or not.  Every other text is refused for its
form.
-/
theorem two_spellings :
    (∀ (text : String) (a : Account), ofAddress text = .ok a ↔
      text.toUpper = Hex.encode a.block.bytes ∨ text = a.toAddress) ∧
    (∀ a : Account, ofAddress a.toAddress = .ok a) ∧
    (∀ (text : String) (a : Account), text.toUpper = Hex.encode a.block.bytes →
      text.length = 40 ∧ (octets text).length = 40) ∧
    (∀ a : Account, (octets a.toAddress).length ≠ 40) ∧
    (∀ (text : String) (a : Account), (octets text).length = 40 → ofBase58 text ≠ .ok a) ∧
    (∀ (text : String) (cause : Error), ofAddress text = .error cause →
      cause.kind = .invalidFormat) := by
  have hlength : ∀ a : Account, (octets a.toAddress).length ≠ 40 := fun a =>
    Nat.ne_of_lt a.length_toAddress_lt
  refine ⟨fun _ _ => ofAddress_eq_ok_iff, ofAddress_toAddress, fun _ _ => length_of_digits, hlength,
    ?_, ?_⟩
  · intro text a h40 h
    rw [ofBase58_eq_ok_iff.mp h] at h40
    exact hlength a h40
  · intro text cause h
    exact List.mem_singleton.mp (failsWithin_ofAddress text cause h)

/-- The account of the first ledger. -/
def genesis : Account where
  block :=
    { bytes := [0xB5, 0xF7, 0x62, 0x79, 0x8A, 0x53, 0xD5, 0x43, 0xA0, 0x14,
        0xCA, 0xF8, 0xB2, 0x97, 0xCF, 0xF8, 0xF2, 0xF9, 0x37, 0xE8]
      length_eq := rfl }

/-- The genesis account is read from its address and from its digits in mixed case.  Forty letters
of the alphabet are neither, and neither is a text that ends in a foreign letter. -/
theorem two_spellings_of_genesis :
    ofAddress "rHb9CJAWyB4rj91VRWn96DkukG4bwdtyTh" = .ok genesis ∧
      ofAddress "b5F762798a53d543A014caf8B297CFF8f2f937E8" = .ok genesis ∧
      ofBase58 "rrrrrrrrrrrrrrrrrrrrrrrrrrrrrrrrrrrrrrrr" ≠ .ok genesis ∧
      (∃ cause, ofAddress "rHb9CJAWyB4rj91VRWn96DkukG4bwdtyT0" = .error cause ∧
        cause.kind = .invalidFormat) := by
  obtain ⟨hiff, -, -, -, hnot, hkind⟩ := two_spellings
  have haddress : "rHb9CJAWyB4rj91VRWn96DkukG4bwdtyTh" = genesis.toAddress := by decide +kernel
  have hdigits : "b5F762798a53d543A014caf8B297CFF8f2f937E8".toUpper
      = Hex.encode genesis.block.bytes := by decide +kernel
  have hforeign : ofAddress "rHb9CJAWyB4rj91VRWn96DkukG4bwdtyT0"
      = .error (.malformedAddress (.notBase58 "rHb9CJAWyB4rj91VRWn96DkukG4bwdtyT0")) := rfl
  exact ⟨(hiff _ _).mpr (Or.inr haddress), (hiff _ _).mpr (Or.inl hdigits), hnot _ _ (by decide),
    _, hforeign, hkind _ _ hforeign⟩

end AmountField.Account
