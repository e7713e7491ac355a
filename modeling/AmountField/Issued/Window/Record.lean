/-
Windows as records.

A window is kept as a record of its precision and its two bounds.  It is read by name or by
place, every member has to be an integer of 32 bits, unsigned for the precision and signed
for the bounds, and the record is a window only if its members pass the tests of `ofBounds`.
Members given by name are read in the order of their keys, so the first fault in that order
is reported; a missing one is noticed after that, in the order of the record.
-/
import AmountField.Issued.Window

namespace AmountField.Issued.Window

/-- Why a JSON value is no window. -/
inductive Fault where
  /-- The value is not of the type that is expected. -/
  | invalidType (found : Json) (expected : String)
  /-- The integer is not in the range that is expected. -/
  | invalidValue (found : Int) (expected : String)
  | missingMember (key : String)
  | tooFewItems (count : Nat)
  | tooManyItems (count : Nat)
  /-- The members are not those of a window. -/
  | refused (cause : Error)

/-! ### Wording -/

/-- What a message calls a JSON value that it did not expect. -/
def describe : Json → String
  | .null => "null"
  | .bool b => s!"boolean `{b}`"
  | .number (.integer n) => s!"integer `{n}`"
  | .number (.double x) => s!"floating point `{String.ofList (Json.Double.render x)}`"
  | .text s => s!"string {Text.quote s}"
  | .array _ => "sequence"
  | .object _ => "map"

/-- The name of a record of a window. -/
def recordName : String := "struct ContextFields"

/-- The wording of a fault. -/
def Fault.message : Fault → String
  | invalidType found expected => s!"invalid type: {describe found}, expected {expected}"
  | invalidValue found expected => s!"invalid value: integer `{found}`, expected {expected}"
  | missingMember key => s!"missing field `{key}`"
  | tooFewItems count => s!"invalid length {count}, expected {recordName} with 3 elements"
  | tooManyItems count => s!"invalid length {count}, expected fewer elements in array"
  | refused cause => cause.message

/-! ### Reading -/

/-- A range of integers. -/
structure IntegerType where
  name : String
  least : Int
  greatest : Int

/-- The unsigned integers of 32 bits. -/
def unsigned32 : IntegerType := ⟨"u32", 0, 4294967295⟩

/-- The signed integers of 32 bits. -/
def signed32 : IntegerType := ⟨"i32", -2147483648, 2147483647⟩

/-- The integer that a JSON value is, in a range. -/
def readInteger (t : IntegerType) : Json → Except Fault Int
  | .number (.integer n) =>
    if t.least ≤ n ∧ n ≤ t.greatest then .ok n else .error (.invalidValue n t.name)
  | other => .error (.invalidType other t.name)

/-- The integer of a member, if there is such a member. -/
def readMember (t : IntegerType) (whole : Json) (key : String) : Except Fault (Option Int) :=
  match whole.member? key with
  | some value => (readInteger t value).map some
  | none => .ok none

/-- The value of a member that has to be there. -/
def demand (key : String) : Option Int → Except Fault Int
  | some n => .ok n
  | none => .error (.missingMember key)

/-- The item at a place and those behind it. -/
def readItem (t : IntegerType) (place : Nat) : List Json → Except Fault (Int × List Json)
  | item :: rest => (readInteger t item).map fun n => (n, rest)
  | [] => .error (.tooFewItems place)

/-- The window with the members of a record. -/
def ofMembers (digits minExponent maxExponent : Int) : Except Fault Window :=
  (ofBounds digits minExponent maxExponent).mapError Fault.refused

/-- The window of a record given by name. -/
def ofNamed (whole : Json) : Except Fault Window := do
  let greatest ← readMember signed32 whole "max_exponent"
  let least ← readMember signed32 whole "min_exponent"
  let digits ← readMember unsigned32 whole "precision"
  let digits ← demand "precision" digits
  let least ← demand "min_exponent" least
  let greatest ← demand "max_exponent" greatest
  ofMembers digits least greatest

/-- The window of a record given by place. -/
def ofPlaced (items : List Json) : Except Fault Window := do
  let (digits, rest) ← readItem unsigned32 0 items
  let (least, rest) ← readItem signed32 1 rest
  let (greatest, rest) ← readItem signed32 2 rest
  if rest.isEmpty then ofMembers digits least greatest
  else throw (.tooManyItems items.length)

/-- The window that a JSON value spells as a record. -/
def ofRecord (j : Json) : Except Fault Window :=
  match j with
  | .object _ => ofNamed j
  | .array items => ofPlaced items
  | other => .error (.invalidType other recordName)

/-- The record of a window. -/
def toRecord (w : Window) : Json :=
  Json.ofMembers
    [("precision", Json.ofNat precision), ("min_exponent", Json.ofInt w.minExponent),
      ("max_exponent", Json.ofInt w.maxExponent)]

end AmountField.Issued.Window
