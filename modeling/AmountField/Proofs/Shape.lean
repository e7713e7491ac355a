/-
The object of an issued amount.

An object has the shape of an issued amount when its keys are those of the three members, each
once and in any order.  The test does less than that: it counts the members and asks for each of
the three keys.  It is enough because the keys are three and differ, so that three members among
whose keys they all occur have no other key and none of them twice.

An object of that shape has one value under each key, and to look a key up is to ask for the
member.  So an object is read as an issued amount exactly when its members are the three texts
of the amount in some order, and where it is not read, a member of the shape is no text.
-/
import AmountField.AmountText
import AmountField.Proofs.Results
import Mathlib.Data.List.Nodup
import Mathlib.Data.List.Perm.Subperm

namespace AmountField.AmountText

/-! ### Keys that differ -/

theorem lookup_eq_some_iff_mem {members : List (String × Json)} {key : String} {v : Json}
    (h : (members.map Prod.fst).Nodup) : members.lookup key = some v ↔ (key, v) ∈ members := by
  refine ⟨?_, ?_⟩
  · intro hlookup
    obtain ⟨before, behind, rfl, -⟩ := List.lookup_eq_some_iff.mp hlookup
    exact List.mem_append_right before List.mem_cons_self
  · intro hmem
    have hsome : (members.lookup key).isSome :=
      List.lookup_isSome_iff.mpr ⟨(key, v), hmem, beq_self_eq_true key⟩
    obtain ⟨v', hlookup⟩ := Option.isSome_iff_exists.mp hsome
    obtain ⟨before, behind, hsplit, -⟩ := List.lookup_eq_some_iff.mp hlookup
    have hmem' : (key, v') ∈ members := hsplit ▸ List.mem_append_right before List.mem_cons_self
    have heq := List.inj_on_of_nodup_map h hmem' hmem rfl
    rw [hlookup, (Prod.mk.inj heq).2]

/-! ### The shape -/

/-- The keys of an issued amount. -/
def issuedKeys : List String := ["value", "currency", "issuer"]

/-- The keys of the members are those of an issued amount, each once and in any order. -/
def HasIssuedKeys (members : List (String × Json)) : Prop :=
  (members.map Prod.fst).Perm issuedKeys

instance (members : List (String × Json)) : Decidable (HasIssuedKeys members) :=
  inferInstanceAs (Decidable ((members.map Prod.fst).Perm issuedKeys))

theorem issuedKeys_nodup : issuedKeys.Nodup := by decide

theorem HasIssuedKeys.nodup {members : List (String × Json)} (h : HasIssuedKeys members) :
    (members.map Prod.fst).Nodup :=
  h.nodup_iff.mpr issuedKeys_nodup

theorem HasIssuedKeys.exists_member {members : List (String × Json)} {key : String}
    (h : HasIssuedKeys members) (hkey : key ∈ issuedKeys) : ∃ v, (key, v) ∈ members := by
  obtain ⟨m, hmem, rfl⟩ := List.mem_map.mp (h.mem_iff.mpr hkey)
  exact ⟨m.2, hmem⟩

/-- **The test of the shape**: three members with the three keys have these keys and no others. -/
theorem hasIssuedShape_iff {members : List (String × Json)} :
    hasIssuedShape members = true ↔ HasIssuedKeys members := by
  have hshape : hasIssuedShape members = true
      ↔ members.length = 3 ∧ issuedKeys ⊆ members.map Prod.fst := by
    simp only [hasIssuedShape, issuedKeys, Bool.and_eq_true, decide_eq_true_eq, List.all_cons,
      List.all_nil, List.any_eq_true, List.cons_subset, List.nil_subset, List.mem_map]
    tauto
  rw [hshape]
  refine ⟨?_, ?_⟩
  · intro hparts
    obtain ⟨hlength, hsubset⟩ := hparts
    have hsubperm := List.subperm_of_subset issuedKeys_nodup hsubset
    refine (hsubperm.perm_of_length_le ?_).symm
    rw [List.length_map, hlength]
    exact Nat.le_refl 3
  · intro h
    exact ⟨(List.length_map Prod.fst).symm.trans h.length_eq, h.symm.subset⟩

/-! ### Members -/

/-- The members of the object of three texts. -/
def issuedMembers (value currency issuer : String) : List (String × Json) :=
  [("value", .text value), ("currency", .text currency), ("issuer", .text issuer)]

/-- The members are the three texts in some order when the keys are and each text is a member. -/
theorem perm_issuedMembers_iff {members : List (String × Json)} {value currency issuer : String} :
    members.Perm (issuedMembers value currency issuer) ↔
      HasIssuedKeys members ∧ ("value", .text value) ∈ members ∧
        ("currency", .text currency) ∈ members ∧ ("issuer", .text issuer) ∈ members := by
  have hsubset : issuedMembers value currency issuer ⊆ members
      ↔ ("value", .text value) ∈ members ∧ ("currency", .text currency) ∈ members ∧
        ("issuer", .text issuer) ∈ members := by
    simp only [issuedMembers, List.cons_subset, List.nil_subset, and_true]
  rw [← hsubset]
  refine ⟨?_, ?_⟩
  · intro h
    exact ⟨h.map Prod.fst, h.symm.subset⟩
  · intro hparts
    obtain ⟨hkeys, hmem⟩ := hparts
    have hnodup : (issuedMembers value currency issuer).Nodup :=
      List.Nodup.of_map Prod.fst issuedKeys_nodup
    refine (List.Subperm.perm_of_length_le (List.subperm_of_subset hnodup hmem) ?_).symm
    exact Nat.le_of_eq ((List.length_map Prod.fst).symm.trans hkeys.length_eq)

/-- Under the shape, what is read of a key is the text of its member. -/
theorem memberText_of_mem {members : List (String × Json)} {key : String} {v : Json}
    (h : HasIssuedKeys members) (hmem : (key, v) ∈ members) :
    memberText (.object members) key =
      match v with
      | .text s => .ok s
      | other => .error (.memberNotText key other) := by
  have hlookup : Json.member? key (.object members) = some v :=
    (lookup_eq_some_iff_mem h.nodup).mpr hmem
  rw [memberText, hlookup]
  cases v <;> rfl

theorem memberText_eq_ok_iff {members : List (String × Json)} {key s : String}
    (h : HasIssuedKeys members) (hkey : key ∈ issuedKeys) :
    memberText (.object members) key = .ok s ↔ (key, .text s) ∈ members := by
  refine ⟨?_, ?_⟩
  · intro hok
    obtain ⟨v, hmem⟩ := h.exists_member hkey
    rw [memberText_of_mem h hmem] at hok
    cases v <;> cases hok
    exact hmem
  · intro hmem
    exact memberText_of_mem h hmem

theorem cause_of_memberText {members : List (String × Json)} {key : String} {cause : Error}
    (h : HasIssuedKeys members) (hkey : key ∈ issuedKeys)
    (herror : memberText (.object members) key = .error cause) :
    ∃ v, (key, v) ∈ members ∧ cause = .memberNotText key v := by
  obtain ⟨v, hmem⟩ := h.exists_member hkey
  refine ⟨v, hmem, ?_⟩
  rw [memberText_of_mem h hmem] at herror
  cases v <;> cases herror <;> rfl

/-! ### Objects -/

theorem ofJson_of_keys {members : List (String × Json)} (h : HasIssuedKeys members) :
    ofJson (.object members) = do
      let value ← memberText (.object members) "value"
      let currency ← memberText (.object members) "currency"
      let issuer ← memberText (.object members) "issuer"
      return issued value currency issuer :=
  if_pos (hasIssuedShape_iff.mpr h)

theorem ofJson_of_not_keys {members : List (String × Json)} (h : ¬ HasIssuedKeys members) :
    ofJson (.object members) = .error (.notAnAmount (.object members)) :=
  if_neg (mt hasIssuedShape_iff.mp h)

/-- **An object is an issued amount when its members are the three texts**, in any order. -/
theorem ofJson_object_eq_ok_iff {members : List (String × Json)} {t : AmountText} :
    ofJson (.object members) = .ok t ↔
      ∃ value currency issuer, members.Perm (issuedMembers value currency issuer) ∧
        t = issued value currency issuer := by
  by_cases hkeys : HasIssuedKeys members
  · rw [ofJson_of_keys hkeys]
    simp only [bind_eq_ok_iff, pure_eq_ok_iff, perm_issuedMembers_iff, hkeys, true_and,
      memberText_eq_ok_iff hkeys (by decide : "value" ∈ issuedKeys),
      memberText_eq_ok_iff hkeys (by decide : "currency" ∈ issuedKeys),
      memberText_eq_ok_iff hkeys (by decide : "issuer" ∈ issuedKeys)]
    refine ⟨?_, ?_⟩
    · intro hparts
      obtain ⟨value, hvalue, currency, hcurrency, issuer, hissuer, rfl⟩ := hparts
      exact ⟨value, currency, issuer, ⟨hvalue, hcurrency, hissuer⟩, rfl⟩
    · intro hparts
      obtain ⟨value, currency, issuer, ⟨hvalue, hcurrency, hissuer⟩, rfl⟩ := hparts
      exact ⟨value, hvalue, currency, hcurrency, issuer, hissuer, rfl⟩
  · rw [ofJson_of_not_keys hkeys]
    refine ⟨?_, ?_⟩
    · intro h
      cases h
    · intro hparts
      obtain ⟨value, currency, issuer, hperm, -⟩ := hparts
      exact absurd (perm_issuedMembers_iff.mp hperm).1 hkeys

end AmountField.AmountText
