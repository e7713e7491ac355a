/-
Text with a checksum is read when it was written, and not otherwise.

The checksum always has four bytes, and that is all that is used of the digest.  So the bytes of a
text are cut in one place.  At most four leave nothing in front, and any more are a version, a
payload and the last four: `length_le_or_exists_split`.  Reading is then a test of each part, and a
text that passes them is put together from a version, a payload and the checksum of both, as the
writer does it.
-/
import AmountField.Base58.Check
import AmountField.Proofs.Base58

namespace AmountField.Base58.Check

theorem length_checksum (body : List UInt8) : (checksum body).length = checksumLength := by
  have hlength := (Sha256.digest (Sha256.digest body).bytes).length_eq
  rw [checksum, List.length_take, hlength]
  rfl

/-! ### Where the bytes are cut -/

/-- Bytes that are too few for a version, or a version, a payload and the last four. -/
theorem length_le_or_exists_split (data : List UInt8) :
    data.length ≤ checksumLength ∨
      ∃ v payload sum, data = v :: payload ++ sum ∧ sum.length = checksumLength := by
  by_cases hle : data.length ≤ checksumLength
  · exact Or.inl hle
  · have hback : (data.drop (data.length - checksumLength)).length = checksumLength := by
      rw [List.length_drop]
      omega
    have hfront : data.take (data.length - checksumLength) ≠ [] := by
      apply List.ne_nil_of_length_pos
      rw [List.length_take]
      omega
    obtain ⟨v, payload, hv⟩ := List.exists_cons_of_ne_nil hfront
    exact Or.inr ⟨v, payload, _, by rw [← hv, List.take_append_drop], hback⟩

section

variable {version : UInt8} {text : String}

theorem decode_of_length_le {data : List UInt8} (h : decode? text = some data)
    (hle : data.length ≤ checksumLength) : decode version text = .error (.tooShort text) := by
  unfold decode
  simp only [h, Nat.sub_eq_zero_of_le hle, List.splitAt_eq, List.take_zero]

/-- The parts of a text are tested, the checksum before the version. -/
theorem decode_of_split {v : UInt8} {payload sum : List UInt8}
    (h : decode? text = some (v :: payload ++ sum)) (hsum : sum.length = checksumLength) :
    decode version text =
      if checksum (v :: payload) ≠ sum then .error (.checksumMismatch text)
      else if v ≠ version then .error (.unexpectedVersion v text)
      else .ok payload := by
  have hsplit : (v :: payload ++ sum).splitAt ((v :: payload ++ sum).length - checksumLength)
      = (v :: payload, sum) := by
    rw [List.splitAt_eq, List.length_append, hsum, Nat.add_sub_cancel, List.take_left,
      List.drop_left]
  unfold decode
  simp only [h, hsplit]

/-! ### There and back -/

theorem decode_eq_ok_iff {payload : List UInt8} :
    decode version text = .ok payload ↔ text = encode version payload := by
  refine ⟨?_, ?_⟩
  · intro h
    cases hdata : decode? text with
    | none =>
        unfold decode at h
        rw [hdata] at h
        cases h
    | some data =>
        rcases length_le_or_exists_split data with hle | ⟨v, rest, sum, rfl, hsum⟩
        · rw [decode_of_length_le hdata hle] at h
          cases h
        · rw [decode_of_split hdata hsum] at h
          split_ifs at h with hcheck hversion
          cases h
          rw [decode?_eq_some_iff.mp hdata, ← not_not.mp hcheck, not_not.mp hversion]
          rfl
  · rintro rfl
    have hdata : decode? (encode version payload)
        = some (version :: payload ++ checksum (version :: payload)) := decode?_encode _
    rw [decode_of_split hdata (length_checksum _), if_neg (not_not.mpr rfl),
      if_neg (not_not.mpr rfl)]

end

theorem decode_encode (version : UInt8) (payload : List UInt8) :
    decode version (encode version payload) = .ok payload :=
  decode_eq_ok_iff.mpr rfl

/--
**The texts that are read are those that are written.**  Under a version a text is read as a
payload exactly when it is the text of that payload, so no payload has two texts and the empty one
is read back.  The bytes of a text are cut safely: with four or fewer there is nothing in front of
the checksum and the text is too short, and with more there is a version in front, and the tests
are of the version, the payload and the last four bytes.
-/
theorem reads_what_is_written :
    (∀ (version : UInt8) (text : String) (payload : List UInt8),
      decode version text = .ok payload ↔ text = encode version payload) ∧
    (∀ (version : UInt8) (text text' : String) (payload : List UInt8),
      decode version text = .ok payload → decode version text' = .ok payload → text = text') ∧
    (∀ version : UInt8, decode version (encode version []) = .ok []) ∧
    (∀ (version : UInt8) (text : String) (data : List UInt8), decode? text = some data →
      (data.length ≤ 4 → decode version text = .error (.tooShort text)) ∧
      (4 < data.length → ∃ v payload sum, data = v :: payload ++ sum ∧ sum.length = 4 ∧
        decode version text =
          if checksum (v :: payload) ≠ sum then .error (.checksumMismatch text)
          else if v ≠ version then .error (.unexpectedVersion v text)
          else .ok payload)) := by
  refine ⟨fun _ _ _ => decode_eq_ok_iff, ?_, fun version => decode_encode version [], ?_⟩
  · intro version text text' payload h h'
    rw [decode_eq_ok_iff.mp h, decode_eq_ok_iff.mp h']
  · intro version text data hdata
    refine ⟨decode_of_length_le hdata, ?_⟩
    intro hlt
    obtain ⟨v, payload, sum, rfl, hsum⟩ :=
      (length_le_or_exists_split data).resolve_left (Nat.not_le.mpr hlt)
    exact ⟨v, payload, sum, rfl, hsum, decode_of_split hdata hsum⟩

/-- Twenty zeros have the text that they are read from; four bytes are a checksum of nothing, and
the text with its last letter altered is cut where it should be and belongs to no payload. -/
theorem reads_twenty_zeros :
    encode 0 (List.replicate 20 0) = "rrrrrrrrrrrrrrrrrrrrrhoLvTp" ∧
      decode 0 "rrrr" = .error (.tooShort "rrrr") ∧
      (∃ data, decode? "rrrrrrrrrrrrrrrrrrrrrhoLvTq" = some data ∧
        ∃ v payload sum, data = v :: payload ++ sum ∧ sum.length = 4) ∧
      ∀ payload, decode 0 "rrrrrrrrrrrrrrrrrrrrrhoLvTq" ≠ .ok payload := by
  obtain ⟨hiff, -, -, hcut⟩ := reads_what_is_written
  have hread : decode 0 "rrrrrrrrrrrrrrrrrrrrrhoLvTp" = .ok (List.replicate 20 0) := by
    decide +kernel
  have hshort : decode? "rrrr" = some [0, 0, 0, 0] := by decide +kernel
  have haltered : decode 0 "rrrrrrrrrrrrrrrrrrrrrhoLvTq"
      = .error (.checksumMismatch "rrrrrrrrrrrrrrrrrrrrrhoLvTq") := by decide +kernel
  refine ⟨((hiff _ _ _).mp hread).symm, (hcut 0 _ _ hshort).1 (by decide), ?_, ?_⟩
  · obtain ⟨data, hdata, hlt⟩ : ∃ data, decode? "rrrrrrrrrrrrrrrrrrrrrhoLvTq" = some data ∧
        4 < data.length := ⟨_, rfl, by decide +kernel⟩
    obtain ⟨v, payload, sum, hparts, hsum, -⟩ := (hcut 0 _ data hdata).2 hlt
    exact ⟨data, hdata, v, payload, sum, hparts, hsum⟩
  · intro payload h
    rw [haltered] at h
    cases h

end AmountField.Base58.Check
