/-
A stream of amounts is read back, and nothing else can be read from it.

Amounts stand one behind the other without anything between them.  `run_asks` is the one
induction: where the bytes of some amounts come next, asking for as many amounts gives these and
leaves the cursor behind them.  It serves both directions.  For amounts that were written, the
bytes are there by assumption.  For a byte string of unknown origin, `exists_amounts` finds them:
as long as there is a whole frame there is one more amount, every amount takes eight bytes at
least, and so the frames come to an end after finitely many.
-/
import AmountField.Cursor.Script
import AmountField.Proofs.Kinds

namespace AmountField.Cursor

/-! ### Asking for amounts -/

namespace Session

/-- The session after a list of steps. -/
def after (s : Session) (steps : List Step) : Session :=
  steps.foldl (fun s step => (s.step step).2) s

/-- What the steps of a list give. -/
def results (s : Session) (steps : List Step) : List (Except Error Outcome) :=
  (s.run steps).map Prod.fst

/-- The steps that ask for `n` amounts, each with its hint. -/
def asks (hint : Nat → Option Nat) (n : Nat) : List Step :=
  (List.range n).map fun i => .amount (hint i)

theorem asks_succ (hint : Nat → Option Nat) (n : Nat) :
    asks hint (n + 1) = .amount (hint 0) :: asks (fun i => hint (i + 1)) n := by
  rw [asks, List.range_succ_eq_map, List.map_cons, List.map_map]
  rfl

variable {s : Session} {c : Cursor}

/-- An amount that comes next is given, whatever the hint, and the cursor moves past it. -/
theorem step_amount {a : Amount} (h : s.current.Takes a.toBytes c) (hint : Option Nat) :
    s.step (.amount hint) = (.ok (.amount a), { s with current := c }) := by
  show s.perform .amount Amount.read = _
  rw [perform, Amount.read_of_takes h]

/-- **Amounts that come next are given one after the other.** -/
theorem run_asks {amounts : List Amount} :
    ∀ {s : Session} {c : Cursor} (hint : Nat → Option Nat),
      s.current.Takes (amounts.flatMap Amount.toBytes) c →
      s.results (asks hint amounts.length) = amounts.map (fun a => .ok (.amount a)) ∧
        s.after (asks hint amounts.length) = { s with current := c } := by
  induction amounts with
  | nil =>
      intro s c hint h
      rw [h.unique (Takes.refl s.current)]
      exact ⟨rfl, rfl⟩
  | cons a rest ih =>
      intro s c hint h
      obtain ⟨c₁, hfirst, hrest⟩ := h.split
      have hstep := step_amount hfirst (hint 0)
      obtain ⟨hresults, hafter⟩ := ih (s := { s with current := c₁ }) (fun i => hint (i + 1)) hrest
      rw [List.length_cons, asks_succ]
      refine ⟨?_, ?_⟩
      · rw [results, run, hstep]
        exact congrArg (_ :: ·) hresults
      · rw [after, List.foldl_cons, hstep]
        exact hafter

end Session

/-! ### Finding amounts -/

theorem length_flatMap_toBytes_ge (amounts : List Amount) :
    8 * amounts.length ≤ (amounts.flatMap Amount.toBytes).length := by
  induction amounts with
  | nil => exact Nat.le_refl 0
  | cons a rest ih =>
      have hge := a.length_toBytes_ge
      rw [List.flatMap_cons, List.length_append, List.length_cons]
      omega

/-- **At every cursor there are some amounts**, and behind them too few bytes for one more. -/
theorem exists_amounts {data : List UInt8} (hdata : data.length < 2 ^ 64) (n : Nat) :
    ∀ c : Cursor, c.Inside data → c.remaining ≤ n → ∃ (amounts : List Amount) (c' : Cursor),
      c.Takes (amounts.flatMap Amount.toBytes) c' ∧ c'.remaining < Amount.need c'.rest := by
  induction n with
  | zero =>
      intro c _ hempty
      exact ⟨[], c, Takes.refl c, Nat.lt_of_le_of_lt hempty (Amount.need_pos _)⟩
  | succ n ih =>
      intro c hinside hle
      rcases Nat.lt_or_ge c.remaining (Amount.need c.rest) with hshort | hwhole
      · exact ⟨[], c, Takes.refl c, hshort⟩
      · obtain ⟨a, c₁, hfirst⟩ := Amount.framed.exists_takes hwhole (hinside.room hdata hwhole)
        have hge : 8 ≤ (Wire.toBytes a).length := a.length_toBytes_ge
        have hrest := congrArg List.length hfirst.rest_eq
        rw [List.length_append, length_rest, length_rest] at hrest
        obtain ⟨amounts, c', htakes, hstop⟩ := ih c₁ (hfirst.inside hinside) (by omega)
        refine ⟨a :: amounts, c', ?_, hstop⟩
        rw [List.flatMap_cons]
        exact hfirst.trans htakes

theorem Takes.eq_take {data bytes : List UInt8} {c : Cursor} (h : (start data).Takes bytes c) :
    bytes = data.take c.position.toNat := by
  have hdata : data = bytes ++ c.rest := h.rest_eq
  have hposition : c.position.toNat = bytes.length := h.position_eq.trans (Nat.zero_add _)
  rw [hposition, hdata, List.take_left]

/--
**Framing loses nothing.**  Amounts written one behind the other are given back in order by as
many reads, and the cursor then stands at what follows them.  And of every byte string, whatever
it holds, some number of reads gives amounts whose bytes are all that has been taken from it; then
the next read fails for want of bytes, at the end for want of the first, and leaves the cursor where
it is.  All this as far as a position can count.
-/
theorem stream_lossless (hint : Nat → Option Nat) :
    (∀ (amounts : List Amount) (tail : List UInt8),
      (amounts.flatMap Amount.toBytes).length < 2 ^ 64 →
        let s := Session.start (amounts.flatMap Amount.toBytes ++ tail)
        let steps := Session.asks hint amounts.length
        s.results steps = amounts.map (fun a => .ok (.amount a)) ∧
          (s.after steps).current.position.toNat = (amounts.flatMap Amount.toBytes).length ∧
          (s.after steps).current.rest = tail) ∧
    (∀ data : List UInt8, data.length < 2 ^ 64 → ∃ amounts : List Amount,
      let s := Session.start data
      let steps := Session.asks hint amounts.length
      8 * amounts.length ≤ data.length ∧
        s.results steps = amounts.map (fun a => .ok (.amount a)) ∧
        amounts.flatMap Amount.toBytes = data.take (s.after steps).current.position.toNat ∧
        ∃ n, (s.after steps).current.remaining < n ∧
          (s.after steps).step (.amount (hint amounts.length))
            = (.error (.underrun n (s.after steps).current.remaining), s.after steps)) := by
  refine ⟨?_, ?_⟩
  · intro amounts tail hlength s steps
    have hnext : s.current.rest = amounts.flatMap Amount.toBytes ++ tail := rfl
    rw [← Nat.zero_add (List.length _)] at hlength
    obtain ⟨c, htakes, hrest⟩ := exists_takes hnext hlength
    obtain ⟨hresults, hafter⟩ := Session.run_asks hint htakes
    rw [hafter]
    exact ⟨hresults, htakes.position_eq.trans (Nat.zero_add _), hrest⟩
  · intro data hdata
    obtain ⟨amounts, c, htakes, hstop⟩ :=
      exists_amounts hdata _ (start data) (inside_start data) (Nat.le_refl _)
    obtain ⟨hresults, hafter⟩ := Session.run_asks (s := Session.start data) hint htakes
    refine ⟨amounts, ?_, hresults, ?_, Amount.need c.rest, ?_⟩
    · exact Nat.le_trans (length_flatMap_toBytes_ge amounts) htakes.length_le
    · rw [hafter]
      exact htakes.eq_take
    · rw [hafter]
      refine ⟨hstop, ?_⟩
      show Session.perform _ _ Amount.read = _
      rw [Session.perform, Amount.read_of_short hstop]

/-- One dollar and a hundred drops are read back, and of two bytes behind them nothing is. -/
theorem stream_of_dollar_and_drops :
    let written := [Amount.oneDollar, Amount.hundredDrops].flatMap Amount.toBytes
    let s := Session.start (written ++ [0x40, 7])
    let asks := Session.asks fun _ => none
    written.length < 2 ^ 64 ∧ (written ++ [0x40, 7]).length < 2 ^ 64 ∧
      s.results (asks 2) = [.ok (.amount .oneDollar), .ok (.amount .hundredDrops)] ∧
      (s.after (asks 2)).current.rest = [0x40, 7] ∧
      ∃ amounts : List Amount,
        amounts.flatMap Amount.toBytes
          = (written ++ [0x40, 7]).take (s.after (asks amounts.length)).current.position.toNat := by
  intro written s asks
  obtain ⟨hwritten, hany⟩ := stream_lossless fun _ => none
  have hfits : written.length < 2 ^ 64 := by decide
  have hfits' : (written ++ [0x40, 7]).length < 2 ^ 64 := by decide
  obtain ⟨hresults, -, hrest⟩ := hwritten [Amount.oneDollar, Amount.hundredDrops] [0x40, 7] hfits
  obtain ⟨amounts, -, -, htaken, -⟩ := hany _ hfits'
  exact ⟨hfits, hfits', hresults, hrest, amounts, htaken⟩

end AmountField.Cursor
