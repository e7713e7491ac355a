/-
Which kinds of errors encoding can end in.

A chain of tests fails only in the ways of its links.  So there is one lemma for each link, which
names its kinds, and the kinds of an amount are those of the links it is made of: of its shape, of
the number, of the currency, of the issuer.

Two links have a failure that never comes out.  Packing a value refuses what lies outside the
window of the format; but a value was brought into a window before, and every window lies within
that of the format, so packing never fails.  And a member of an issued amount may be missing; but
its object was tested for its keys before, so a member that is looked up is there.
-/
import AmountField.Amount
import AmountField.Proofs.Encoding
import AmountField.Proofs.Native
import AmountField.Proofs.Shape

namespace AmountField

open Decimal (Plain)
open Issued (Canonical Window)

/-! ### Kinds of failure -/

/-- The result is a success, or an error of one of the kinds. -/
def FailsWithin {α : Type} (kinds : List Error.Kind) (r : Except Error α) : Prop :=
  ∀ cause, r = .error cause → cause.kind ∈ kinds

namespace FailsWithin

variable {α β : Type} {kinds : List Error.Kind}

@[simp] theorem ok (a : α) : FailsWithin kinds (.ok a) := by
  intro cause h
  cases h

@[simp] theorem error_iff {cause : Error} :
    FailsWithin kinds (.error cause : Except Error α) ↔ cause.kind ∈ kinds := by
  refine ⟨fun h => h cause rfl, ?_⟩
  intro hkind cause' h
  cases h
  exact hkind

@[simp] theorem throw_iff {cause : Error} :
    FailsWithin kinds (throw cause : Except Error α) ↔ cause.kind ∈ kinds :=
  error_iff

theorem of_eq_ok {r : Except Error α} {a : α} (h : r = .ok a) : FailsWithin kinds r :=
  h ▸ ok a

theorem of_okOrOverflow {r : Except Error α} {o : Option α} (h : OkOrOverflow r o) :
    FailsWithin [.overflow] r := by
  cases o with
  | some a => exact of_eq_ok h
  | none =>
      obtain ⟨cause, herror, hkind⟩ := h
      rw [herror, error_iff, hkind]
      exact List.mem_singleton_self _

theorem mono {kinds' : List Error.Kind} {r : Except Error α} (h : FailsWithin kinds r)
    (hsub : kinds ⊆ kinds') : FailsWithin kinds' r :=
  fun cause hr => hsub (h cause hr)

/-- A chain fails in the ways of its links. -/
theorem bind {r : Except Error α} {f : α → Except Error β} (hr : FailsWithin kinds r)
    (hf : ∀ a, r = .ok a → FailsWithin kinds (f a)) : FailsWithin kinds (r >>= f) := by
  cases r with
  | error cause => exact error_iff.mpr (hr cause rfl)
  | ok a => exact hf a rfl

theorem map {r : Except Error α} (f : α → β) (hr : FailsWithin kinds r) :
    FailsWithin kinds (r.map f) := by
  cases r with
  | error cause => exact error_iff.mpr (hr cause rfl)
  | ok a => exact ok (f a)

end FailsWithin

/-! ### Numbers -/

theorem Decimal.Reading.failsWithin_ofText (text : String) :
    FailsWithin [.invalidFormat] (ofText text) := by
  unfold ofText
  split
  · exact .ok _
  · split
    · exact .ok _
    · simp [Error.kind]

theorem Native.failsWithin_encode (text : String) :
    FailsWithin [.invalidFormat, .outOfRange] (encode text) := by
  have hverify : FailsWithin [.invalidFormat, .outOfRange] (verify text) := by
    rcases verify_cases text with
      ⟨-, hv⟩ | ⟨-, ⟨cause, hread, hv⟩ | ⟨d, -, -, hv⟩ | ⟨_, -, -, hv⟩⟩
    · simp [hv, Error.kind]
    · rw [hv, FailsWithin.error_iff]
      exact (Decimal.Reading.failsWithin_ofText text).mono (by simp) cause hread
    · rw [hv]
      exact .ok d
    · simp [hv, Error.kind]
  have hdrops : ∀ d, FailsWithin [.invalidFormat, .outOfRange] (drops text d) := by
    intro d
    unfold drops
    cases d.whole? with
    | none => simp [Error.kind]
    | some k =>
        simp only
        split
        · simp [Error.kind]
        · split
          · simp [Error.kind]
          · exact .ok _
  intro cause h
  rcases encode_eq_error_iff.mp h with herror | ⟨d, -, herror⟩
  · exact hverify cause herror
  · exact hdrops d cause herror

namespace Issued

theorem Canonical.failsWithin_ofDecimal (w : Window) (d : Decimal) :
    FailsWithin [.overflow] (ofDecimal w d) :=
  .of_okOrOverflow (ofDecimal_truncates w d)

theorem Canonical.failsWithin_ofText (w : Window) (text : String) :
    FailsWithin [.invalidFormat, .overflow] (ofText w text) := by
  refine ((Decimal.Reading.failsWithin_ofText text).mono (by simp)).bind ?_
  intro r _
  cases r with
  | exact d => exact (failsWithin_ofDecimal w d).mono (by simp)
  | unbounded => simp [Error.kind]
  | vanishing => exact .ok _

theorem Canonical.failsWithin_ofText_of_plain (w : Window) {p : Plain} (h : p.Short) :
    FailsWithin [.overflow] (ofText w p.text) :=
  .of_okOrOverflow (ofText_truncates w h)

/-- **Packing adds no failure**: what a window lets through has a field. -/
theorem failsWithin_encode {kinds : List Error.Kind} {w : Window} {text : String}
    (h : FailsWithin kinds (Canonical.ofText w text)) : FailsWithin kinds (encode w text) := by
  refine h.bind ?_
  intro c hc
  obtain ⟨field, hfield, -⟩ := Canonical.exists_toField (Canonical.within_of_ofText hc)
  exact .of_eq_ok hfield

theorem Canonical.exists_toBits_of_ofDecimal {w : Window} {d : Decimal} {c : Canonical}
    (h : ofDecimal w d = .ok c) : ∃ bits, c.toBits = .ok bits := by
  have hwithin := Window.within_of_truncate? ((ofDecimal_truncates w d).eq_some h)
  obtain ⟨field, hfield, -⟩ := exists_toField hwithin
  exact ⟨field.word, map_eq_ok_iff.mpr ⟨field, hfield, rfl⟩⟩

end Issued

/-! ### Currencies and accounts -/

theorem Currency.failsWithin_ofCode (code : String) :
    FailsWithin [.invalidFormat] (ofCode code) := by
  have hhex : FailsWithin [.invalidFormat] (ofHexCode code) := by
    unfold ofHexCode
    split
    · simp [Error.kind]
    · split
      · exact .ok _
      · simp [Error.kind]
  unfold ofCode
  split
  · exact .ok _
  · split
    · split
      · exact .ok _
      · simp [Error.kind]
    · split
      · exact hhex
      · simp [Error.kind]

theorem Account.failsWithin_ofAddress (address : String) :
    FailsWithin [.invalidFormat] (ofAddress address) := by
  unfold ofAddress
  split
  · exact .ok _
  · unfold ofBase58
    split
    · simp [Error.kind]
    · split
      · exact .ok _
      · simp [Error.kind]

/-! ### Shapes -/

namespace AmountText

/-- Whether a JSON value has one of the two shapes of an amount. -/
def HasShape : Json → Prop
  | .text _ => True
  | .object members => HasIssuedKeys members
  | _ => False

/-- Under the shape, a member is refused for its form. -/
theorem failsWithin_ofJson {members : List (String × Json)} (h : HasIssuedKeys members) :
    FailsWithin [.invalidFormat] (ofJson (.object members)) := by
  have hmember : ∀ key ∈ issuedKeys,
      FailsWithin [.invalidFormat] (memberText (.object members) key) := by
    intro key hkey cause herror
    obtain ⟨v, -, rfl⟩ := cause_of_memberText h hkey herror
    simp [Error.kind]
  rw [ofJson_of_keys h]
  refine (hmember "value" (by decide)).bind fun value _ => ?_
  refine (hmember "currency" (by decide)).bind fun currency _ => ?_
  exact (hmember "issuer" (by decide)).bind fun issuer _ => .ok _

theorem ofJson_of_not_hasShape {j : Json} (h : ¬ HasShape j) :
    ofJson j = .error (.notAnAmount j) := by
  cases j with
  | text drops => exact absurd trivial h
  | object members => exact ofJson_of_not_keys h
  | _ => rfl

end AmountText

/-! ### Amounts -/

namespace Amount

open AmountText (HasShape HasIssuedKeys issuedMembers)

theorem failsWithin_ofText_issued {kinds : List Error.Kind} {w : Window}
    {value code address : String} (hvalue : FailsWithin kinds (Canonical.ofText w value))
    (hcode : FailsWithin kinds (Currency.ofCode code))
    (haddress : FailsWithin kinds (Account.ofAddress address)) :
    FailsWithin kinds (ofText w (.issued value code address)) := by
  refine (Issued.failsWithin_encode hvalue).bind fun field _ => ?_
  refine hcode.bind fun currency _ => ?_
  exact haddress.bind fun issuer _ => .ok _

theorem failsWithin_ofJson_text (w : Window) (text : String) :
    FailsWithin [.invalidFormat, .outOfRange] (ofJson w (.text text)) :=
  (Native.failsWithin_encode text).map native

theorem failsWithin_ofJson_object (w : Window) {members : List (String × Json)}
    (h : HasIssuedKeys members) :
    FailsWithin [.invalidFormat, .overflow] (ofJson w (.object members)) := by
  refine ((AmountText.failsWithin_ofJson h).mono (by simp)).bind ?_
  intro t ht
  obtain ⟨value, code, address, -, rfl⟩ := AmountText.ofJson_object_eq_ok_iff.mp ht
  exact failsWithin_ofText_issued (Canonical.failsWithin_ofText w value)
    ((Currency.failsWithin_ofCode code).mono (by simp))
    ((Account.failsWithin_ofAddress address).mono (by simp))

theorem ofJson_of_not_hasShape (w : Window) {j : Json} (h : ¬ HasShape j) :
    ofJson w j = .error (.notAnAmount j) := by
  rw [ofJson, AmountText.ofJson_of_not_hasShape h]
  rfl

/-- What has a shape is not refused for its shape, and no bytes run out. -/
theorem failsWithin_ofJson_of_hasShape (w : Window) {j : Json} (h : HasShape j) :
    FailsWithin [.invalidFormat, .outOfRange, .overflow] (ofJson w j) := by
  cases j with
  | text drops => exact (failsWithin_ofJson_text w drops).mono (by simp)
  | object members => exact (failsWithin_ofJson_object w h).mono (by simp)
  | _ => cases h

/--
**The kind of an error says what was wrong.**  A value is refused as such exactly when it has
neither shape of an amount.  A text is refused for its form or its range, an object of the shape
for its form or for being too large, and no reader runs out of bytes.  A value that was brought
into a window can be packed, so an issued amount is never out of range; and one whose parts are
well formed can only be too large.
-/
theorem kinds_of_ofJson (w : Window) :
    (∀ j, (∃ cause, ofJson w j = .error cause ∧ cause.kind = .invalidInput) ↔ ¬ HasShape j) ∧
    (∀ text, FailsWithin [.invalidFormat, .outOfRange] (ofJson w (.text text))) ∧
    (∀ members, HasIssuedKeys members →
      FailsWithin [.invalidFormat, .overflow] (ofJson w (.object members))) ∧
    (∀ j cause, ofJson w j = .error cause → cause.kind ≠ .bufferUnderrun) ∧
    (∀ d c, Canonical.ofDecimal w d = .ok c → ∃ bits, c.toBits = .ok bits) ∧
    (∀ (p : Plain) code address members currency issuer, p.Short →
      Currency.ofCode code = .ok currency → Account.ofAddress address = .ok issuer →
      members.Perm (issuedMembers p.text code address) →
        FailsWithin [.overflow] (ofJson w (.object members))) := by
  refine ⟨?_, failsWithin_ofJson_text w, fun _ => failsWithin_ofJson_object w, ?_,
    fun _ _ => Canonical.exists_toBits_of_ofDecimal, ?_⟩
  · intro j
    refine ⟨?_, ?_⟩
    · intro hparts hshape
      obtain ⟨cause, herror, hkind⟩ := hparts
      have hmem := failsWithin_ofJson_of_hasShape w hshape cause herror
      simp [hkind] at hmem
    · intro hshape
      exact ⟨_, ofJson_of_not_hasShape w hshape, rfl⟩
  · intro j cause herror hkind
    by_cases hshape : HasShape j
    · have hmem := failsWithin_ofJson_of_hasShape w hshape cause herror
      simp [hkind] at hmem
    · rw [ofJson_of_not_hasShape w hshape] at herror
      cases herror
      cases hkind
  · intro p code address members currency issuer hshort hcode haddress hperm
    have htext : AmountText.ofJson (.object members) = .ok (.issued p.text code address) :=
      AmountText.ofJson_object_eq_ok_iff.mpr ⟨_, _, _, hperm, rfl⟩
    rw [ofJson, htext]
    exact failsWithin_ofText_issued (Canonical.failsWithin_ofText_of_plain w hshort)
      (.of_eq_ok hcode) (.of_eq_ok haddress)

/-- The literal `1E99`, which is beyond every window. -/
def huge : Plain :=
  ⟨.none, ['1'], none, some ⟨'E', .none, ['9', '9'], rfl, by decide, List.all_eq_true.mp rfl⟩,
    by decide, List.all_eq_true.mp rfl⟩

/-- The members of that many dollars of the account with number one, in the order of their keys. -/
def hugeDollars : List (String × Json) :=
  [("currency", .text "USD"), ("issuer", .text "0000000000000000000000000000000000000001"),
    ("value", .text huge.text)]

/-- Too many dollars are an overflow and nothing else, in the window of the format. -/
theorem kinds_of_hugeDollars :
    HasIssuedKeys hugeDollars ∧ huge.Short ∧
      ofJson .full (.object hugeDollars) = .error (.valueOverflow ⟨1, -99⟩) ∧
      Error.kind (.valueOverflow ⟨1, -99⟩) ∈ [.invalidFormat, .overflow] ∧
      Error.kind (.valueOverflow ⟨1, -99⟩) ∈ [.overflow] ∧
      Error.kind (.valueOverflow ⟨1, -99⟩) ≠ .bufferUnderrun ∧
      ∃ bits, (Canonical.normalized false 1000000000000000 (-15)).toBits = .ok bits := by
  obtain ⟨-, -, hobject, hunderrun, hbits, hwell⟩ := kinds_of_ofJson .full
  have hkeys : HasIssuedKeys hugeDollars := by decide
  have hshort : huge.Short := by decide
  have herror : ofJson .full (.object hugeDollars) = .error (.valueOverflow ⟨1, -99⟩) := rfl
  have hperm : hugeDollars.Perm
      (issuedMembers huge.text "USD" "0000000000000000000000000000000000000001") :=
    AmountText.perm_issuedMembers_iff.mpr ⟨hkeys, by simp [hugeDollars]⟩
  refine ⟨hkeys, hshort, herror, hobject _ hkeys _ herror, ?_, hunderrun _ _ herror,
    hbits ⟨1, 0⟩ _ rfl⟩
  exact hwell huge "USD" _ _ _ _ hshort rfl rfl hperm _ herror

end Amount

end AmountField
