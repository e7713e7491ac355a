/-
Sequences of reads.

A script is a list of steps on one cursor.  A step that fails is reported, and the script goes on
from the cursor that the step has left, so a script has one report a step.  A cursor can be kept
aside and taken up again; before one has been kept, that is the cursor the script started with.
-/
import AmountField.Amount

namespace AmountField.Cursor

/-- One step on a cursor. -/
inductive Step where
  | peek
  | read (n : UInt64)
  | skip (n : UInt64)
  | readBlock (n : UInt64)
  | amount (hint : Option Nat)
  | currency (hint : Option Nat)
  | account (hint : Option Nat)
  /-- Keep the cursor. -/
  | save
  /-- Take up the cursor that was kept. -/
  | restore

/-- What a step has read. -/
inductive Outcome where
  | nothing
  /-- The next byte, not moved past. -/
  | byte (b : UInt8)
  | bytes (bs : List UInt8)
  | amount (a : Amount)
  | currency (c : Currency)
  | account (a : Account)
  deriving DecidableEq

/-- A cursor, and the one that was kept. -/
structure Session where
  /-- Where the next step reads. -/
  current : Cursor
  /-- Where `restore` goes back to. -/
  saved : Cursor

namespace Session

/-- The session at the front of a byte string. -/
def start (data : List UInt8) : Session := ⟨Cursor.start data, Cursor.start data⟩

/-- Runs a reader on the current cursor and goes on from the cursor that it leaves. -/
def perform {α : Type} (s : Session) (outcome : α → Outcome) (reader : Reader α) :
    Except Error Outcome × Session :=
  match reader s.current with
  | .ok a c => (.ok (outcome a), { s with current := c })
  | .error e c => (.error e, { s with current := c })

/-- What a step gives, and the session after it. -/
def step (s : Session) : Step → Except Error Outcome × Session
  | .peek => s.perform .byte Cursor.peek
  | .read n => s.perform .bytes (Cursor.read n)
  | .skip n => s.perform (fun _ => .nothing) (Cursor.skip n)
  | .readBlock n => s.perform (fun b => .bytes b.bytes) (Cursor.readBlock n)
  | .amount hint => s.perform .amount (Wire.read hint)
  | .currency hint => s.perform .currency (Wire.read hint)
  | .account hint => s.perform .account (Wire.read hint)
  | .save => (.ok .nothing, { s with saved := s.current })
  | .restore => (.ok .nothing, { s with current := s.saved })

/-- The report of every step: what it gave, and the cursor after it. -/
def run (s : Session) : List Step → List (Except Error Outcome × Cursor)
  | [] => []
  | step :: rest =>
    let (result, s) := s.step step
    (result, s.current) :: s.run rest

end Session

end AmountField.Cursor
