/-
Two readings of an amount.

The one reading looks at the shape of an object first and then asks for its members; the other
knows of no shape and takes the members one after another into a draft.  They meet in the draft:
seen as an object of its own, a draft has for members exactly those that were put into it, in
some order.  A member is put in only under a key that is still free, and no two members of a
draft have one key, so nothing is lost or overwritten on the way, and what is left at the end is
the same condition on the members that the other reading tests.

So on texts and objects the two agree, and so they do on whatever is neither.  On arrays they do
not: three texts are a record given by place, and no array is an amount.
-/
import AmountField.AmountText.Record
import AmountField.Proofs.RoundTrip
import AmountField.Proofs.Shape

namespace AmountField.AmountText

namespace Draft

/-! ### A draft as an object -/

/-- The members that the draft has seen. -/
def members (d : Draft) : List (String × Json) :=
  (d.value.map fun s => ("value", Json.text s)).toList
    ++ (d.currency.map fun s => ("currency", Json.text s)).toList
    ++ (d.issuer.map fun s => ("issuer", Json.text s)).toList

theorem mem_members {d : Draft} {m : String × Json} :
    m ∈ d.members ↔
      (∃ s, d.value = some s ∧ ("value", Json.text s) = m) ∨
      (∃ s, d.currency = some s ∧ ("currency", Json.text s) = m) ∨
      (∃ s, d.issuer = some s ∧ ("issuer", Json.text s) = m) := by
  simp only [members, List.mem_append, Option.mem_toList, Option.map_eq_some_iff, or_assoc]

theorem nodup_keys (d : Draft) : (d.members.map Prod.fst).Nodup := by
  rcases d with ⟨_ | _, _ | _, _ | _⟩ <;> simp [members]

/-- A draft is known by its members, whatever their order. -/
theorem eq_of_perm {d d' : Draft} (h : d.members.Perm d'.members) : d = d' := by
  have hmem : ∀ m, m ∈ d.members ↔ m ∈ d'.members := fun m => h.mem_iff
  have hvalue : d.value = d'.value := by
    ext s
    simpa [mem_members] using hmem ("value", .text s)
  have hcurrency : d.currency = d'.currency := by
    ext s
    simpa [mem_members] using hmem ("currency", .text s)
  have hissuer : d.issuer = d'.issuer := by
    ext s
    simpa [mem_members] using hmem ("issuer", .text s)
  cases d
  cases d'
  congr

/-! ### Putting a member in -/

theorem perm_of_put {d d' : Draft} {m : String × Json} (h : d.put m = some d') :
    d'.members.Perm (m :: d.members) := by
  obtain ⟨key, v⟩ := m
  obtain ⟨value, currency, issuer⟩ := d
  cases v with
  | text s =>
      simp only [put, Option.isNone_iff_eq_none] at h
      split_ifs at h with hvalue hfree hcurrency hfree hissuer hfree
      -- the draft keeps its members in the order of its places, so the new one may stand between
      · cases h
        subst hvalue
        cases hfree
        exact .refl _
      · cases h
        subst hcurrency
        cases hfree
        simp [members]
      · cases h
        subst hissuer
        cases hfree
        simp only [members, Option.map_none, Option.toList_none, List.append_nil]
        exact List.perm_append_singleton _ _
  | _ => cases h

/-- A draft takes what may be a member of a draft, if the key is free. -/
theorem exists_put {d d' : Draft} {m : String × Json} (hmem : m ∈ d'.members)
    (hfree : m.1 ∉ d.members.map Prod.fst) : ∃ d₁, d.put m = some d₁ := by
  obtain ⟨value, currency, issuer⟩ := d
  rcases mem_members.mp hmem with ⟨s, -, rfl⟩ | ⟨s, -, rfl⟩ | ⟨s, -, rfl⟩
  · cases value with
    | none => exact ⟨_, rfl⟩
    | some old => simp [members] at hfree
  · cases currency with
    | none => exact ⟨_, rfl⟩
    | some old => simp [members] at hfree
  · cases issuer with
    | none => exact ⟨_, rfl⟩
    | some old => simp [members] at hfree

/-- **A draft takes members one after another when it can have them all**, and has them then. -/
theorem foldlM_put_eq_some_iff {members : List (String × Json)} {d d' : Draft} :
    members.foldlM put d = some d' ↔ d'.members.Perm (members ++ d.members) := by
  induction members generalizing d with
  | nil =>
      refine ⟨?_, ?_⟩
      · intro h
        cases h
        exact .refl _
      · intro h
        rw [eq_of_perm h]
        rfl
  | cons m rest ih =>
      have hstep : ∀ d₁, d.put m = some d₁ →
          (rest ++ d₁.members).Perm (m :: rest ++ d.members) := fun d₁ hput =>
        ((perm_of_put hput).append_left rest).trans List.perm_middle
      rw [List.foldlM_cons, Option.bind_eq_bind, Option.bind_eq_some_iff]
      refine ⟨?_, ?_⟩
      · intro hparts
        obtain ⟨d₁, hput, hrest⟩ := hparts
        exact (ih.mp hrest).trans (hstep d₁ hput)
      · intro h
        -- the members to come and those taken are members of one draft, so their keys differ
        have hkeys : ((m :: rest ++ d.members).map Prod.fst).Nodup :=
          (h.map Prod.fst).nodup_iff.mp d'.nodup_keys
        rw [List.cons_append, List.map_cons, List.map_append, List.nodup_cons] at hkeys
        have hfree : m.1 ∉ d.members.map Prod.fst := mt (List.mem_append_right _) hkeys.1
        obtain ⟨d₁, hput⟩ := exists_put (h.mem_iff.mpr List.mem_cons_self) hfree
        exact ⟨d₁, hput, ih.mpr (h.trans (hstep d₁ hput).symm)⟩

theorem finish_eq_some_iff {d : Draft} {t : AmountText} :
    d.finish = some t ↔ ∃ value currency issuer,
      d.members = issuedMembers value currency issuer ∧ t = issued value currency issuer := by
  obtain ⟨value, currency, issuer⟩ := d
  refine ⟨?_, ?_⟩
  · intro h
    cases value <;> cases currency <;> cases issuer <;> cases h
    exact ⟨_, _, _, rfl, rfl⟩
  · intro hparts
    obtain ⟨x, y, z, hmembers, rfl⟩ := hparts
    have heq : Draft.mk value currency issuer = ⟨some x, some y, some z⟩ :=
      eq_of_perm (.of_eq hmembers)
    rw [heq]
    rfl

end Draft

/-! ### The two readings -/

/-- **A record given by name is read when its members are the three texts**, in any order. -/
theorem ofNamed?_eq_some_iff {members : List (String × Json)} {t : AmountText} :
    ofNamed? members = some t ↔
      ∃ value currency issuer, members.Perm (issuedMembers value currency issuer) ∧
        t = issued value currency issuer := by
  have hrun : ∀ d, members.foldlM Draft.put .empty = some d ↔ d.members.Perm members := by
    intro d
    rw [Draft.foldlM_put_eq_some_iff, show Draft.members .empty = [] from rfl, List.append_nil]
  simp only [ofNamed?, Option.bind_eq_bind, Option.bind_eq_some_iff, hrun,
    Draft.finish_eq_some_iff]
  refine ⟨?_, ?_⟩
  · intro hparts
    obtain ⟨d, hperm, value, currency, issuer, hmembers, rfl⟩ := hparts
    exact ⟨value, currency, issuer, hmembers ▸ hperm.symm, rfl⟩
  · intro hparts
    obtain ⟨value, currency, issuer, hperm, rfl⟩ := hparts
    exact ⟨⟨some value, some currency, some issuer⟩, hperm.symm, value, currency, issuer, rfl, rfl⟩

theorem ofPlaced?_eq_some_iff {items : List Json} {t : AmountText} :
    ofPlaced? items = some t ↔
      ∃ value currency issuer, items = [.text value, .text currency, .text issuer] ∧
        t = issued value currency issuer := by
  refine ⟨?_, ?_⟩
  · intro h
    unfold ofPlaced? at h
    split at h
    · cases h
      exact ⟨_, _, _, rfl, rfl⟩
    · cases h
  · intro hparts
    obtain ⟨value, currency, issuer, rfl, rfl⟩ := hparts
    rfl

/-- A record is an amount or is given by place. -/
theorem ofRecord_eq_ok_iff {j : Json} {t : AmountText} :
    ofRecord j = .ok t ↔ ofJson j = .ok t ∨ ∃ value currency issuer,
      j = .array [.text value, .text currency, .text issuer] ∧
      t = issued value currency issuer := by
  have hrecord : ofRecord j = .ok t ↔ ofRecord? j = some t := by
    unfold ofRecord
    cases ofRecord? j <;> simp
  rw [hrecord]
  cases j with
  | text drops => simp [ofRecord?, ofJson]
  | object members => simp [ofRecord?, ofNamed?_eq_some_iff, ofJson_object_eq_ok_iff]
  | array items => simp [ofRecord?, ofPlaced?_eq_some_iff, ofJson]
  | null => simp [ofRecord?, ofJson]
  | bool b => simp [ofRecord?, ofJson]
  | number n => simp [ofRecord?, ofJson]

theorem toRecord_eq_toJson (t : AmountText) : t.toRecord = t.toJson := by
  cases t with
  | native drops => rfl
  | issued value currency issuer => rfl

/--
**A record is an amount, or three texts by place.**  The two readings take the same texts and the
same objects to the same amounts, and take nothing else but for an array of three texts, which is
a record although no array is an amount.  An amount is written in one way, and both readings read
it back.
-/
theorem ofRecord_iff_ofJson_or_placed (j : Json) (t : AmountText) :
    (ofRecord j = .ok t ↔ ofJson j = .ok t ∨ ∃ value currency issuer,
      j = .array [.text value, .text currency, .text issuer] ∧ t = issued value currency issuer) ∧
    (∀ items, ofJson (.array items) = .error (.notAnAmount (.array items))) ∧
    t.toRecord = t.toJson ∧ ofJson t.toJson = .ok t ∧ ofRecord t.toJson = .ok t := by
  refine ⟨ofRecord_eq_ok_iff, fun items => rfl, toRecord_eq_toJson t, ofJson_toJson t, ?_⟩
  exact ofRecord_eq_ok_iff.mpr (.inl (ofJson_toJson t))

/-- One dollar by place is a record and no amount. -/
theorem ofRecord_of_placed_dollar :
    ¬ ∀ (j : Json) (t : AmountText), ofRecord j = .ok t ↔ ofJson j = .ok t := by
  intro hagree
  have hrecord : ofRecord
      (.array [.text "1", .text "USD", .text "rHb9CJAWyB4rj91VRWn96DkukG4bwdtyTh"])
      = .ok (issued "1" "USD" "rHb9CJAWyB4rj91VRWn96DkukG4bwdtyTh") := rfl
  have hjson := (hagree _ _).mp hrecord
  cases hjson

end AmountField.AmountText
