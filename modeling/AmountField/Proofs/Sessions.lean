/-
What a cursor does over a whole run of steps.

A step goes on from the cursor that its reader leaves, whether the reader gives a value or fails.
So that a failure changes nothing is a property of the readers, `Keeps`.  Looking at a byte and
reading a block have it, and a reader that looks and then takes one block has it too; one that takes
two blocks has not, since the second may be missing behind the first.

A step asks for a number of bytes, and `Step.need?` says for how many; only an amount has to look at
the next byte to know.  `serves_of_need` is the one fact about a step on a cursor inside its data:
if so many bytes are left it gives exactly these and moves past them, and if not it fails for want
of bytes.  Since so many are left, the sum of position and number is no larger than the length of
the data, and does not come round.

A run is then a matter of bookkeeping.  The session after some steps is over the same byte string
and inside it, the report of a step is what that session gives, and the cursor that is taken up
again is the one that stood where one was last kept.
-/
import AmountField.Proofs.Stream

namespace AmountField.Cursor

/-! ### What a failure leaves -/

namespace Reader

variable {α β : Type} {r : Reader α}

/-- A reader that fails leaves the cursor as it found it. -/
def Keeps (r : Reader α) : Prop := ∀ ⦃c cause c'⦄, r c = .error cause c' → c' = c

/-- A reader that gives a value leaves the cursor as it found it. -/
def Looks (r : Reader α) : Prop := ∀ ⦃c a c'⦄, r c = .ok a c' → c' = c

/-- What comes behind a look finds the cursor that the look found. -/
theorem Keeps.bind {f : α → Reader β} (hr : Keeps r) (hlooks : Looks r) (hf : ∀ a, Keeps (f a)) :
    Keeps (r >>= f) := by
  intro c cause c' h
  cases hread : r c with
  | error cause' c₁ =>
      rw [bind_of_error hread] at h
      cases h
      exact hr hread
  | ok a c₁ =>
      rw [bind_of_ok hread] at h
      exact (hf a h).trans (hlooks hread)

theorem Keeps.map (hr : Keeps r) (f : α → β) : Keeps (f <$> r) := by
  intro c cause c' h
  cases hread : r c with
  | error cause' c₁ =>
      rw [map_of_error hread] at h
      cases h
      exact hr hread
  | ok a c₁ =>
      rw [map_of_ok hread] at h
      cases h

theorem Keeps.bind_pure (hr : Keeps r) (f : α → β) : Keeps (r >>= fun a => pure (f a)) :=
  hr.map f

end Reader

theorem keeps_peek : peek.Keeps := by
  intro c cause c' h
  unfold peek at h
  split at h <;> cases h
  rfl

theorem looks_peek : peek.Looks := by
  intro c b c' h
  unfold peek at h
  split at h <;> cases h
  rfl

theorem keeps_readBlock (n : UInt64) : (readBlock n).Keeps := by
  intro c cause c' h
  unfold readBlock at h
  split at h <;> cases h
  rfl

/-- **An amount that is not read leaves the cursor as it was.** -/
theorem keeps_readAmount : Amount.read.Keeps :=
  keeps_peek.bind looks_peek fun _ => (keeps_readBlock _).bind_pure _

/-- Two blocks one behind the other are not kept: the first is gone when the second is missing. -/
example : (do discard (readBlock 1); readBlock 1) (start [7]) = .error (.underrun 1 0) ⟨[7], 1⟩ :=
  rfl

namespace Session

variable {s : Session}

theorem perform_of_error {α : Type} {outcome : α → Outcome} {r : Reader α} {cause : Error}
    (hr : r.Keeps) (h : (s.perform outcome r).1 = .error cause) : (s.perform outcome r).2 = s := by
  unfold perform at h ⊢
  cases hread : r s.current with
  | error cause' c =>
      rw [hr hread]
  | ok a c =>
      rw [hread] at h
      cases h

/-- **A step that fails leaves the session as it was.** -/
theorem step_of_error {step : Step} {cause : Error} (h : (s.step step).1 = .error cause) :
    (s.step step).2 = s := by
  cases step with
  | peek => exact perform_of_error keeps_peek h
  | read n => exact perform_of_error ((keeps_readBlock n).bind_pure _) h
  | skip n => exact perform_of_error ((keeps_readBlock n).map _) h
  | readBlock n => exact perform_of_error (keeps_readBlock n) h
  | amount hint => exact perform_of_error keeps_readAmount h
  | currency hint => exact perform_of_error ((keeps_readBlock 20).map _) h
  | account hint => exact perform_of_error ((keeps_readBlock 20).map _) h
  | save => cases h
  | restore => cases h

end Session

/-! ### What a step asks for -/

namespace Step

/-- How many bytes a step asks for.  Keeping a cursor and taking it up ask for nothing. -/
def need? (c : Cursor) : Step → Option Nat
  | peek => some 1
  | read n | skip n | readBlock n => some n.toNat
  | amount _ => some (Amount.need c.rest)
  | currency _ | account _ => some 20
  | save | restore => none

/-- How far a step that has been given `n` bytes moves: looking at a byte does not move. -/
def stride : Step → Nat → Nat
  | peek, _ => 0
  | _, n => n

/-- What a step gives when these are the bytes: the bytes, the value that has these bytes, or
nothing if they were passed over. -/
def Shows (bytes : List UInt8) : Step → Outcome → Prop
  | peek, outcome => ∃ b, bytes = [b] ∧ outcome = .byte b
  | read _, outcome | readBlock _, outcome => outcome = .bytes bytes
  | skip _, outcome | save, outcome | restore, outcome => outcome = .nothing
  | amount _, outcome => ∃ a : Amount, Wire.toBytes a = bytes ∧ outcome = .amount a
  | currency _, outcome => ∃ a : Currency, Wire.toBytes a = bytes ∧ outcome = .currency a
  | account _, outcome => ∃ a : Account, Wire.toBytes a = bytes ∧ outcome = .account a

theorem need?_eq_none_iff {c : Cursor} {step : Step} :
    step.need? c = none ↔ step = save ∨ step = restore := by
  cases step <;> simp [need?]

end Step

/-! ### What a step does -/

namespace Session

/-- A step that asks for `k` bytes is given them if they are there, and fails without a trace if
they are not. -/
structure Serves (s : Session) (step : Step) (k : Nat) : Prop where
  enough : k ≤ s.current.remaining → ∃ outcome c,
    s.step step = (.ok outcome, { s with current := c }) ∧
      step.Shows (s.current.rest.take k) outcome ∧ c.data = s.current.data ∧
      c.position.toNat = s.current.position.toNat + step.stride k
  short : s.current.remaining < k →
    s.step step = (.error (.underrun k s.current.remaining), s)

variable {s : Session} {step : Step} {data : List UInt8} {k : Nat} {α : Type}
  {outcome : α → Outcome} {r : Reader α}

/-- A step asks for `k` bytes when its reader takes so many if they are there, and fails where it
stands if they are not. -/
theorem serves_of_takes (hstep : s.step step = s.perform outcome r) (hstride : step.stride k = k)
    (henough : k ≤ s.current.remaining → ∃ bytes a c, bytes.length = k ∧
      s.current.Takes bytes c ∧ r s.current = .ok a c ∧ step.Shows bytes (outcome a))
    (hshort : s.current.remaining < k →
      r s.current = .error (.underrun k s.current.remaining) s.current) : s.Serves step k where
  enough := by
    intro hle
    obtain ⟨bytes, a, c, rfl, htakes, hread, hshows⟩ := henough hle
    refine ⟨outcome a, c, ?_, ?_, htakes.data_eq, ?_⟩
    · rw [hstep, perform, hread]
    · rwa [htakes.rest_eq, List.take_left]
    · rw [hstride, htakes.position_eq]
  short := by
    intro hfew
    rw [hstep, perform, hshort hfew]

theorem serves_of_readBlock {n : UInt64} {value : Block n.toNat → α}
    (hinside : s.current.Inside data) (hdata : data.length < 2 ^ 64)
    (hstep : s.step step = s.perform outcome (value <$> readBlock n))
    (hstride : step.stride n.toNat = n.toNat)
    (hshows : ∀ block : Block n.toNat, step.Shows block.bytes (outcome (value block))) :
    s.Serves step n.toNat := by
  refine serves_of_takes hstep hstride ?_ fun hfew => Reader.map_of_error (readBlock_of_lt hfew)
  intro hle
  exact ⟨_, _, _, Block.length_eq _, takes_advance hle (hinside.room hdata hle),
    Reader.map_of_ok (readBlock_of_le hle), hshows _⟩

theorem serves_of_framed [Wire α] {need : List UInt8 → Nat} {hint : Option Nat}
    (hframed : Wire.Framed α need) (hinside : s.current.Inside data)
    (hdata : data.length < 2 ^ 64)
    (hstep : s.step step = s.perform outcome (Wire.read hint))
    (hstride : step.stride (need s.current.rest) = need s.current.rest)
    (hshows : ∀ a, step.Shows (Wire.toBytes a) (outcome a)) :
    s.Serves step (need s.current.rest) := by
  refine serves_of_takes hstep hstride ?_ fun hfew => hframed.read_short hint hfew
  intro hle
  obtain ⟨a, c, htakes⟩ := hframed.exists_takes hle (hinside.room hdata hle)
  have hlength : (Wire.toBytes a).length = need s.current.rest := by
    rw [htakes.rest_eq, hframed.need_append]
  exact ⟨_, a, c, hlength, htakes, hframed.read_eq hint htakes, hshows a⟩

theorem serves_peek : s.Serves .peek 1 := by
  have hlength := s.current.length_rest
  have hstep : s.step .peek = s.perform .byte Cursor.peek := rfl
  cases hrest : s.current.rest with
  | nil =>
      rw [hrest, List.length_nil] at hlength
      refine ⟨fun hle => by omega, fun _ => ?_⟩
      rw [hstep, perform, peek_of_nil hrest, ← hlength]
  | cons b rest =>
      rw [hrest, List.length_cons] at hlength
      refine ⟨fun _ => ⟨.byte b, s.current, ?_, ?_, rfl, rfl⟩, fun hfew => by omega⟩
      · rw [hstep, perform, peek_of_cons hrest]
      · rw [hrest]
        exact ⟨b, rfl, rfl⟩

/-- **A step is given what it asks for, or it fails and changes nothing.** -/
theorem serves_of_need (hinside : s.current.Inside data) (hdata : data.length < 2 ^ 64)
    (h : step.need? s.current = some k) : s.Serves step k := by
  cases step with
  | peek =>
      cases h
      exact serves_peek
  | read n =>
      cases h
      exact serves_of_readBlock hinside hdata rfl rfl fun _ => rfl
  | skip n =>
      cases h
      exact serves_of_readBlock hinside hdata rfl rfl fun _ => rfl
  | readBlock n =>
      cases h
      have hid : Cursor.readBlock n = id <$> Cursor.readBlock n := (id_map _).symm
      exact serves_of_readBlock hinside hdata (congrArg (s.perform _) hid) rfl fun _ => rfl
  | amount hint =>
      cases h
      exact serves_of_framed Amount.framed hinside hdata rfl rfl fun a => ⟨a, rfl, rfl⟩
  | currency hint =>
      cases h
      exact serves_of_framed Currency.framed hinside hdata rfl rfl fun a => ⟨a, rfl, rfl⟩
  | account hint =>
      cases h
      exact serves_of_framed Account.framed hinside hdata rfl rfl fun a => ⟨a, rfl, rfl⟩
  | save => cases h
  | restore => cases h

/-! ### Runs -/

/-- Both cursors of a session are inside the data. -/
structure Inside (data : List UInt8) (s : Session) : Prop where
  current : s.current.Inside data
  saved : s.saved.Inside data

variable {front back : List Step}

theorem inside_start (data : List UInt8) : (start data).Inside data :=
  ⟨Cursor.inside_start data, Cursor.inside_start data⟩

theorem inside_step (hdata : data.length < 2 ^ 64) (h : s.Inside data) (step : Step) :
    (s.step step).2.Inside data := by
  cases hneed : step.need? s.current with
  | none =>
      rcases Step.need?_eq_none_iff.mp hneed with rfl | rfl
      · exact ⟨h.current, h.current⟩
      · exact ⟨h.saved, h.saved⟩
  | some k =>
      have hserves := serves_of_need h.current hdata hneed
      rcases Nat.lt_or_ge s.current.remaining k with hfew | hle
      · rw [hserves.short hfew]
        exact h
      · obtain ⟨outcome, c, hstep, -, hover, hposition⟩ := hserves.enough hle
        rw [hstep]
        refine ⟨⟨hover.trans h.current.data_eq, ?_⟩, h.saved⟩
        have hstride : step.stride k ≤ k := by
          cases step <;> simp [Step.stride]
        have hroom := h.current.position_le
        rw [remaining, h.current.data_eq] at hle
        show c.position.toNat ≤ data.length
        omega

theorem inside_after (hdata : data.length < 2 ^ 64) (h : s.Inside data) (steps : List Step) :
    (s.after steps).Inside data := by
  induction steps generalizing s with
  | nil => exact h
  | cons step rest ih => exact ih (inside_step hdata h step)

theorem after_append (s : Session) (front back : List Step) :
    s.after (front ++ back) = (s.after front).after back := List.foldl_append

theorem run_getElem? (s : Session) (front : List Step) (step : Step) (back : List Step) :
    (s.run (front ++ step :: back))[front.length]?
      = some (((s.after front).step step).1, ((s.after front).step step).2.current) := by
  induction front generalizing s with
  | nil => rfl
  | cons first rest ih => exact ih (s.step first).2

theorem saved_step (h : step ≠ .save) : (s.step step).2.saved = s.saved := by
  have hperform : ∀ {β : Type} (outcome : β → Outcome) (r : Reader β),
      (s.perform outcome r).2.saved = s.saved := by
    intro β outcome r
    unfold perform
    split <;> rfl
  cases step with
  | save => exact absurd rfl h
  | restore => rfl
  | _ => exact hperform _ _

/-- As long as no cursor is kept, the one that is kept stays. -/
theorem saved_after {steps : List Step} (h : Step.save ∉ steps) :
    (s.after steps).saved = s.saved := by
  induction steps generalizing s with
  | nil => rfl
  | cons step rest ih =>
      rw [List.mem_cons, not_or] at h
      obtain ⟨hstep, hrest⟩ := h
      exact (ih hrest).trans (saved_step (Ne.symm hstep))

end Session

/-- The number of bytes that are left is the difference of two words that does not come round. -/
theorem Inside.toNat_sub {data : List UInt8} {c : Cursor} (h : c.Inside data)
    (hdata : data.length < 2 ^ 64) :
    (UInt64.ofNat data.length - c.position).toNat = c.remaining := by
  have hlength : (UInt64.ofNat data.length).toNat = data.length := by
    rw [UInt64.toNat_ofNat']
    omega
  have hle : c.position ≤ UInt64.ofNat data.length := by
    rw [UInt64.le_iff_toNat_le, hlength]
    exact h.position_le
  rw [UInt64.toNat_sub_of_le _ _ hle, hlength, remaining, h.data_eq]

/--
**A run of steps never leaves the data, and no step does anything but what it asks for.**  After
every step the cursor is over the same data and not past its end, and what remains is what lies
behind it, as a difference of words too.  A step that asks for `k` bytes gives exactly the next `k`
if so many remain, and moves past them unless it only looks, by as much as the number says; if fewer
remain it fails for want of bytes.  Whatever fails leaves the cursor where it was.  Keeping a cursor
does not move it, and the one that is taken up again is the one last kept, or the start.
-/
theorem run_stays_inside {data : List UInt8} (hdata : data.length < 2 ^ 64) (front : List Step)
    (step : Step) (back : List Step) :
    let s := (Session.start data).after front
    ∃ result c,
      ((Session.start data).run (front ++ step :: back))[front.length]? = some (result, c) ∧
      c = (s.after [step]).current ∧
      (c.data = data ∧ c.position.toNat ≤ data.length ∧
        c.remaining = data.length - c.position.toNat ∧
        (UInt64.ofNat data.length - c.position).toNat = c.remaining ∧
        (c.atEnd = true ↔ c.remaining = 0)) ∧
      (∀ k, step.need? s.current = some k →
        (k ≤ s.current.remaining → ∃ outcome, result = .ok outcome ∧
          step.Shows ((data.drop s.current.position.toNat).take k) outcome ∧
          c.position.toNat = s.current.position.toNat + step.stride k) ∧
        (s.current.remaining < k → result = .error (.underrun k s.current.remaining))) ∧
      (∀ cause, result = .error cause → c = s.current) ∧
      (step = .save → result = .ok .nothing ∧ c = s.current) ∧
      (step = .restore → result = .ok .nothing ∧
        (Step.save ∉ front → c = Cursor.start data) ∧
        ∀ earlier later, front = earlier ++ .save :: later → Step.save ∉ later →
          c = ((Session.start data).after earlier).current) := by
  intro s
  have hinside : s.Inside data := Session.inside_after hdata (Session.inside_start data) front
  have hinside' : (s.step step).2.Inside data := Session.inside_step hdata hinside step
  have hover := hinside'.current.data_eq
  refine ⟨_, _, Session.run_getElem? _ front step back, rfl,
    ⟨hover, hinside'.current.position_le, ?_, hinside'.current.toNat_sub hdata, atEnd_iff⟩, ?_,
    fun cause hfails => congrArg Session.current (Session.step_of_error hfails), ?_, ?_⟩
  · rw [remaining, hover]
  · intro k hneed
    have hserves := Session.serves_of_need hinside.current hdata hneed
    refine ⟨?_, ?_⟩
    · intro hle
      obtain ⟨outcome, c, hstep, hshows, -, hposition⟩ := hserves.enough hle
      rw [rest, hinside.current.data_eq] at hshows
      refine ⟨outcome, congrArg Prod.fst hstep, hshows, ?_⟩
      rw [← hposition]
      exact congrArg (fun r => r.2.current.position.toNat) hstep
    · intro hfew
      exact congrArg Prod.fst (hserves.short hfew)
  · rintro rfl
    exact ⟨rfl, rfl⟩
  · rintro rfl
    refine ⟨rfl, Session.saved_after, ?_⟩
    intro earlier later hfront hnone
    show s.saved = _
    have hafter : s = (((Session.start data).after earlier).step .save).2.after later := by
      show (Session.start data).after front = _
      rw [hfront, Session.after_append]
      rfl
    rw [hafter, Session.saved_after hnone]
    rfl

/-- Two of three bytes are read, as many as a word can count are asked for in vain, and the start is
taken up again. -/
theorem run_inside_three_bytes :
    let reports := (Session.start [1, 2, 3]).run [.read 2, .read 0xFFFFFFFFFFFFFFFF, .restore]
    ([1, 2, 3] : List UInt8).length < 2 ^ 64 ∧
      (∃ c, reports[0]? = some (.ok (.bytes [1, 2]), c) ∧ c.position = 2) ∧
      (∃ c, reports[1]? = some (.error (.underrun (2 ^ 64 - 1) 1), c) ∧ c.position = 2) ∧
      reports[2]? = some (.ok .nothing, Cursor.start [1, 2, 3]) := by
  have hdata : ([1, 2, 3] : List UInt8).length < 2 ^ 64 := by decide
  obtain ⟨first, c₁, hreport₁, -, -, hread₁, -, -, -⟩ :=
    run_stays_inside hdata [] (.read 2) [.read 0xFFFFFFFFFFFFFFFF, .restore]
  obtain ⟨second, c₂, hreport₂, -, -, hread₂, hkept, -, -⟩ :=
    run_stays_inside hdata [.read 2] (.read 0xFFFFFFFFFFFFFFFF) [.restore]
  obtain ⟨third, c₃, hreport₃, -, -, -, -, -, hrestore⟩ :=
    run_stays_inside hdata [.read 2, .read 0xFFFFFFFFFFFFFFFF] .restore []
  obtain ⟨outcome, hfirst, hshows, hposition⟩ := (hread₁ 2 rfl).1 (by decide)
  have hsecond := (hread₂ (2 ^ 64 - 1) rfl).2 (by decide)
  have hstay := hkept _ hsecond
  obtain ⟨hthird, hstart, -⟩ := hrestore rfl
  subst hfirst hsecond hthird
  cases hshows
  have hposition₂ : c₂.position = 2 := by
    rw [hstay]
    rfl
  refine ⟨hdata, ⟨c₁, hreport₁, UInt64.toNat_inj.mp hposition⟩, ⟨c₂, hreport₂, hposition₂⟩, ?_⟩
  rw [← hstart (by simp)]
  exact hreport₃

end AmountField.Cursor
