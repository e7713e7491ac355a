/-
A record is a window only if its members are bounds of one.

A record is read in two layers.  The lower one knows of integers and nothing else: it asks for
three of them, by name or by place, each in the range of 32 bits, and `Holds` says of a JSON value
which three it has.  The upper one is `ofBounds`, the test that every window passes.  What links
them is one equation, `ofRecord_of_holds`: a record of three integers that fit becomes what
`ofBounds` makes of them, a window or a refusal.  Since nothing else is read at all, there is no way
around the test.
-/
import AmountField.Issued.Window.Record
import AmountField.Proofs.Results
import Mathlib.Algebra.Ring.Int.Defs

namespace AmountField.Issued.Window

/-! ### The test of the bounds -/

/-- **Bounds are those of a window when they lie in order within those of the format**, and the
precision is sixteen. -/
theorem ofBounds_eq_ok_iff {digits least greatest : Int} {w : Window} :
    ofBounds digits least greatest = .ok w ↔
      digits = 16 ∧ -96 ≤ least ∧ least ≤ greatest ∧ greatest ≤ 80 ∧
        w.minExponent = least ∧ w.maxExponent = greatest := by
  unfold ofBounds
  by_cases hdigits : digits ≠ precision
  · rw [if_pos hdigits]
    exact iff_of_false nofun fun h => hdigits h.1
  · rw [if_neg hdigits]
    have hsixteen : digits = 16 := Decidable.not_not.mp hdigits
    by_cases hwide : least < -96 ∨ 80 < greatest
    · rw [dif_pos hwide]
      exact iff_of_false nofun (by omega)
    · rw [dif_neg hwide]
      by_cases hcrossed : greatest < least
      · rw [dif_pos hcrossed]
        exact iff_of_false nofun (by omega)
      · rw [dif_neg hcrossed]
        refine ⟨?_, ?_⟩
        · intro h
          cases h
          exact ⟨hsixteen, by omega, by omega, by omega, rfl, rfl⟩
        · intro h
          obtain ⟨-, -, -, -, rfl, rfl⟩ := h
          rfl

/-! ### Integers -/

/-- The integers fit into the members of a record: the precision into 32 bits without a sign, the
bounds into 32 bits with one. -/
def Fits (digits least greatest : Int) : Prop :=
  (0 ≤ digits ∧ digits < 2 ^ 32) ∧ (-2 ^ 31 ≤ least ∧ least < 2 ^ 31) ∧
    (-2 ^ 31 ≤ greatest ∧ greatest < 2 ^ 31)

theorem readInteger_eq_ok_iff {t : IntegerType} {j : Json} {n : Int} :
    readInteger t j = .ok n ↔ j = Json.ofInt n ∧ t.least ≤ n ∧ n ≤ t.greatest := by
  refine ⟨?_, ?_⟩
  · intro h
    unfold readInteger at h
    split at h
    · split at h
      · rename_i hrange
        cases h
        exact ⟨rfl, hrange⟩
      · cases h
    · cases h
  · intro h
    obtain ⟨rfl, hrange⟩ := h
    exact if_pos hrange

/-- The three integers fit when each lies in the range of its member. -/
theorem fits_iff {digits least greatest : Int} :
    Fits digits least greatest ↔
      (unsigned32.least ≤ digits ∧ digits ≤ unsigned32.greatest) ∧
      (signed32.least ≤ least ∧ least ≤ signed32.greatest) ∧
      (signed32.least ≤ greatest ∧ greatest ≤ signed32.greatest) := by
  simp only [Fits, unsigned32, signed32]
  omega

theorem fits_of_ofBounds {digits least greatest : Int} {w : Window}
    (h : ofBounds digits least greatest = .ok w) : Fits digits least greatest := by
  obtain ⟨rfl, hleast, hcross, hgreatest, -⟩ := ofBounds_eq_ok_iff.mp h
  unfold Fits
  omega

/-! ### Three integers in a record -/

/-- The JSON value holds these integers, by name among any other members, or by place and then
nothing else. -/
inductive Holds (digits least greatest : Int) : Json → Prop
  | named {members : List (String × Json)}
      (precision_eq : (Json.object members).member? "precision" = some (Json.ofInt digits))
      (min_eq : (Json.object members).member? "min_exponent" = some (Json.ofInt least))
      (max_eq : (Json.object members).member? "max_exponent" = some (Json.ofInt greatest)) :
      Holds digits least greatest (.object members)
  | placed : Holds digits least greatest
      (.array [Json.ofInt digits, Json.ofInt least, Json.ofInt greatest])

theorem readMember_eq_some_iff {t : IntegerType} {whole : Json} {key : String} {n : Int} :
    readMember t whole key = .ok (some n) ↔
      whole.member? key = some (Json.ofInt n) ∧ t.least ≤ n ∧ n ≤ t.greatest := by
  unfold readMember
  cases whole.member? key with
  | none => simp
  | some value => simp [map_eq_ok_iff, readInteger_eq_ok_iff]

theorem demand_eq_ok_iff {key : String} {o : Option Int} {n : Int} :
    demand key o = .ok n ↔ o = some n := by
  cases o <;> simp [demand]

theorem readItem_eq_ok_iff {t : IntegerType} {place : Nat} {items rest : List Json} {n : Int} :
    readItem t place items = .ok (n, rest) ↔
      items = Json.ofInt n :: rest ∧ t.least ≤ n ∧ n ≤ t.greatest := by
  cases items with
  | nil => simp [readItem]
  | cons item more =>
      simp only [readItem, map_eq_ok_iff, readInteger_eq_ok_iff, Prod.mk.injEq, List.cons.injEq]
      refine ⟨?_, ?_⟩
      · intro hparts
        obtain ⟨k, ⟨rfl, hrange⟩, rfl, rfl⟩ := hparts
        exact ⟨⟨rfl, rfl⟩, hrange⟩
      · intro hparts
        obtain ⟨⟨rfl, rfl⟩, hrange⟩ := hparts
        exact ⟨n, ⟨rfl, hrange⟩, rfl, rfl⟩

/-- **A record of three integers that fit is what the test makes of them.** -/
theorem ofRecord_of_holds {j : Json} {digits least greatest : Int}
    (hfits : Fits digits least greatest) (h : Holds digits least greatest j) :
    ofRecord j = (ofBounds digits least greatest).mapError Fault.refused := by
  obtain ⟨hdigits, hleast, hgreatest⟩ := fits_iff.mp hfits
  cases h with
  | named precision_eq min_eq max_eq =>
      simp only [ofRecord, ofNamed, readMember_eq_some_iff.mpr ⟨precision_eq, hdigits⟩,
        readMember_eq_some_iff.mpr ⟨min_eq, hleast⟩,
        readMember_eq_some_iff.mpr ⟨max_eq, hgreatest⟩, ok_bind, demand]
      rfl
  | placed =>
      simp only [ofRecord, ofPlaced, readItem_eq_ok_iff.mpr ⟨rfl, hdigits⟩,
        readItem_eq_ok_iff.mpr ⟨rfl, hleast⟩, readItem_eq_ok_iff.mpr ⟨rfl, hgreatest⟩, ok_bind]
      rfl

/-- What is read as a window holds three integers that are its bounds. -/
theorem holds_of_ofRecord {j : Json} {w : Window} (h : ofRecord j = .ok w) :
    ∃ digits least greatest, Holds digits least greatest j ∧
      ofBounds digits least greatest = .ok w := by
  have hmembers : ∀ {digits least greatest}, ofMembers digits least greatest = .ok w →
      ofBounds digits least greatest = .ok w := by
    intro digits least greatest hok
    unfold ofMembers at hok
    cases hbounds : ofBounds digits least greatest with
    | error cause =>
        rw [hbounds] at hok
        cases hok
    | ok w' =>
        rw [hbounds] at hok
        cases hok
        rfl
  cases j with
  | object members =>
      simp only [ofRecord, ofNamed, bind_eq_ok_iff, demand_eq_ok_iff] at h
      obtain ⟨_, hmax, _, hmin, _, hprecision, digits, rfl, least, rfl, greatest, rfl, hok⟩ := h
      exact ⟨digits, least, greatest, .named (readMember_eq_some_iff.mp hprecision).1
        (readMember_eq_some_iff.mp hmin).1 (readMember_eq_some_iff.mp hmax).1, hmembers hok⟩
  | array items =>
      simp only [ofRecord, ofPlaced, bind_eq_ok_iff, Prod.exists, readItem_eq_ok_iff] at h
      obtain ⟨digits, _, ⟨rfl, -⟩, least, _, ⟨rfl, -⟩, greatest, rest, ⟨rfl, -⟩, hok⟩ := h
      cases rest with
      | nil => exact ⟨digits, least, greatest, .placed, hmembers hok⟩
      | cons item more => cases hok
  | null => cases h
  | bool b => cases h
  | number n => cases h
  | text s => cases h

theorem holds_toRecord (w : Window) : Holds 16 w.minExponent w.maxExponent w.toRecord :=
  .named rfl rfl rfl

theorem ofBounds_self (w : Window) : ofBounds 16 w.minExponent w.maxExponent = .ok w :=
  ofBounds_eq_ok_iff.mpr ⟨rfl, w.least_le, w.min_le_max, w.le_greatest, rfl, rfl⟩

/--
**No record is a way around the test of the bounds.**  A JSON value is read as a window exactly
when it holds three integers that fit and the test makes that window of them, and where the test
refuses the integers, so does the reader, for the same cause.  The test lets through the precision
sixteen and bounds in order from -96 to 80, and the window has these bounds.  The record of a window
is read back as the window.
-/
theorem ofRecord_iff_ofBounds :
    (∀ (j : Json) (w : Window),
      ofRecord j = .ok w ↔ ∃ digits least greatest, Fits digits least greatest ∧
        Holds digits least greatest j ∧ ofBounds digits least greatest = .ok w) ∧
    (∀ (j : Json) (digits least greatest : Int) (cause : Error), Fits digits least greatest →
      Holds digits least greatest j → ofBounds digits least greatest = .error cause →
        ofRecord j = .error (.refused cause)) ∧
    (∀ (digits least greatest : Int) (w : Window),
      ofBounds digits least greatest = .ok w ↔
        digits = 16 ∧ -96 ≤ least ∧ least ≤ greatest ∧ greatest ≤ 80 ∧
          w.minExponent = least ∧ w.maxExponent = greatest) ∧
    (∀ w : Window, ofRecord w.toRecord = .ok w) := by
  refine ⟨?_, ?_, fun _ _ _ _ => ofBounds_eq_ok_iff, ?_⟩
  · intro j w
    refine ⟨?_, ?_⟩
    · intro h
      obtain ⟨digits, least, greatest, hholds, hbounds⟩ := holds_of_ofRecord h
      exact ⟨digits, least, greatest, fits_of_ofBounds hbounds, hholds, hbounds⟩
    · intro h
      obtain ⟨digits, least, greatest, hfits, hholds, hbounds⟩ := h
      rw [ofRecord_of_holds hfits hholds, hbounds]
      rfl
  · intro j digits least greatest cause hfits hholds hbounds
    rw [ofRecord_of_holds hfits hholds, hbounds]
    rfl
  · intro w
    have hbounds := w.ofBounds_self
    rw [ofRecord_of_holds (fits_of_ofBounds hbounds) w.holds_toRecord, hbounds]
    rfl

/-- A narrower window by place, and a record with a member too many and a precision too large. -/
theorem ofRecord_fifty :
    (∃ w, ofRecord (.array [.ofInt 16, .ofInt (-50), .ofInt 50]) = .ok w ∧
        w.minExponent = -50 ∧ w.maxExponent = 50) ∧
      ofRecord (.object [("max_exponent", .ofInt 80), ("min_exponent", .ofInt (-96)),
          ("note", .text "wide"), ("precision", .ofInt 20)])
        = .error (.refused (.wrongPrecision 20)) := by
  obtain ⟨hreads, hrefuses, hbounds, -⟩ := ofRecord_iff_ofBounds
  refine ⟨⟨⟨-50, 50, by decide, by decide, by decide⟩, ?_, rfl, rfl⟩, ?_⟩
  · exact (hreads _ _).mpr ⟨16, -50, 50, by unfold Fits; decide, .placed,
      (hbounds _ _ _ _).mpr (by decide)⟩
  · exact hrefuses _ 20 (-96) 80 _ (by unfold Fits; decide) (.named rfl rfl rfl) rfl

end AmountField.Issued.Window
