/-
Results of chains of tests.

A codec is a chain of tests of which each may fail.  `bind_eq_ok_iff` takes a chain that
succeeded apart, one link at a time, so that no proof has to look into the monad.  The other two
notions are about the one failure that depends on a number and not on a form, the overflow.
-/
import AmountField.Error

namespace AmountField

theorem ok_bind {ε α β : Type} {a : α} {f : α → Except ε β} : (Except.ok a >>= f) = f a := rfl

theorem bind_eq_ok_iff {ε α β : Type} {x : Except ε α} {f : α → Except ε β} {b : β} :
    (x >>= f) = .ok b ↔ ∃ a, x = .ok a ∧ f a = .ok b := by
  cases x with
  | error e => simp [bind, Except.bind]
  | ok a => simp [bind, Except.bind]

theorem pure_eq_ok_iff {ε α : Type} {a b : α} : (pure a : Except ε α) = .ok b ↔ a = b := by
  simp [pure, Except.pure]

theorem map_eq_ok_iff {ε α β : Type} {x : Except ε α} {f : α → β} {b : β} :
    x.map f = .ok b ↔ ∃ a, x = .ok a ∧ f a = b := by
  cases x with
  | error e => simp [Except.map]
  | ok a => simp [Except.map]

/-- The result is an error of the overflow class. -/
def Overflows {α : Type} (r : Except Error α) : Prop :=
  ∃ cause, r = .error cause ∧ cause.kind = .overflow

/-- The result is the given value, or an overflow where there is none. -/
def OkOrOverflow {α : Type} (r : Except Error α) : Option α → Prop
  | some a => r = .ok a
  | none => Overflows r

theorem OkOrOverflow.eq_some {α : Type} {r : Except Error α} {o : Option α} {a : α}
    (h : OkOrOverflow r o) (hr : r = .ok a) : o = some a := by
  cases o with
  | none =>
      obtain ⟨cause, herror, -⟩ := h
      rw [hr] at herror
      cases herror
  | some b =>
      have heq : Except.ok a = Except.ok b := hr.symm.trans h
      cases heq
      rfl

end AmountField
