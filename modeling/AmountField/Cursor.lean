/-
Reading a byte string from front to back.

A cursor is a byte string and a position in it, and a reader is a program on a cursor.  A reader
that fails leaves its cursor wherever it has come to, and whoever ran it goes on from there.

The position is a 64-bit word, and so is the number of bytes that a reader asks for.  Moving adds
the two as words, so on a byte string of 2 ^ 64 bytes the position would come round to the front;
and no type says that it is inside the data.  What keeps it there is the one test of `readBlock`.
-/
import AmountField.Bytes
import AmountField.Error

namespace AmountField

/-- A position in a byte string. -/
structure Cursor where
  /-- The whole byte string. -/
  data : List UInt8
  /-- How many bytes have been read. -/
  position : UInt64

namespace Cursor

/-- The cursor in front of the first byte. -/
def start (data : List UInt8) : Cursor := ⟨data, 0⟩

/-- The bytes not yet read. -/
def rest (c : Cursor) : List UInt8 := c.data.drop c.position.toNat

/-- How many bytes are left; behind the end, where a difference of words would come round, none. -/
def remaining (c : Cursor) : Nat := c.data.length - c.position.toNat

/-- Whether no byte is left. -/
def atEnd (c : Cursor) : Bool := c.data.length ≤ c.position.toNat

@[simp]
theorem length_rest (c : Cursor) : c.rest.length = c.remaining := by
  simp [rest, remaining]

/-- The cursor moved by `n` bytes. -/
def advance (c : Cursor) (n : UInt64) : Cursor := { c with position := c.position + n }

/-- The next `n` bytes, which are there. -/
def block (c : Cursor) (n : Nat) (h : n ≤ c.remaining) : Block n :=
  ⟨c.rest.take n, by rw [List.length_take, length_rest]; omega⟩

/-! ### Readers -/

/-- A program that reads from a cursor.  It gives a value or fails, and either way it leaves a
cursor behind. -/
abbrev Reader (α : Type) := EStateM Error Cursor α

/-- What a reader gives at a cursor, without the cursor that it leaves. -/
def Reader.result {α : Type} (reader : Reader α) (c : Cursor) : Except Error α :=
  match reader c with
  | .ok a _ => .ok a
  | .error e _ => .error e

/-- The next byte, without moving. -/
def peek : Reader UInt8 := fun c =>
  match c.rest with
  | b :: _ => .ok b c
  | [] => .error (.underrun 1 0) c

/-- Reads the next `n` bytes. -/
def readBlock (n : UInt64) : Reader (Block n.toNat) := fun c =>
  if h : n.toNat ≤ c.remaining then .ok (c.block n.toNat h) (c.advance n)
  else .error (.underrun n.toNat c.remaining) c

theorem readBlock_of_le {n : UInt64} {c : Cursor} (h : n.toNat ≤ c.remaining) :
    readBlock n c = .ok (c.block n.toNat h) (c.advance n) := by
  rw [readBlock, dif_pos h]

theorem readBlock_of_lt {n : UInt64} {c : Cursor} (h : c.remaining < n.toNat) :
    readBlock n c = .error (.underrun n.toNat c.remaining) c := by
  rw [readBlock, dif_neg (by omega)]

/-- Reads the next `n` bytes as a list. -/
def read (n : UInt64) : Reader (List UInt8) := return (← readBlock n).bytes

/-- Moves past `n` bytes. -/
def skip (n : UInt64) : Reader Unit := discard (readBlock n)

/-- Reads the next eight bytes as a word. -/
def readWord : Reader UInt64 := return Word.ofBytes (← readBlock 8).bytes

end Cursor

end AmountField
