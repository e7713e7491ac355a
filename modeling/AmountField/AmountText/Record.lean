/-
Amounts as records.

This is the reading of an amount that knows nothing of shapes and causes.  A text is a native
amount.  An issued amount is a record of three texts, and a record is given either by name,
as an object, or by place, as an array.  By name, the members are taken one after another
into a draft, and an unknown key, a repeated key or a value that is not a text spoils it;
by place, there must be three texts and nothing else.
-/
import AmountField.AmountText

namespace AmountField.AmountText

/-- The members of an issued amount, as far as they have been seen. -/
structure Draft where
  value : Option String
  currency : Option String
  issuer : Option String
  deriving DecidableEq

namespace Draft

/-- The draft of a record of which nothing has been seen. -/
def empty : Draft := ⟨none, none, none⟩

/-- Takes one member into the draft. -/
def put (d : Draft) : String × Json → Option Draft
  | (key, .text s) =>
    if key = "value" then if d.value.isNone then some { d with value := some s } else none
    else if key = "currency" then
      if d.currency.isNone then some { d with currency := some s } else none
    else if key = "issuer" then
      if d.issuer.isNone then some { d with issuer := some s } else none
    else none
  | _ => none

/-- The amount, once every member has been seen. -/
def finish (d : Draft) : Option AmountText := do
  return issued (← d.value) (← d.currency) (← d.issuer)

end Draft

/-- The issued amount of a record given by name. -/
def ofNamed? (members : List (String × Json)) : Option AmountText := do
  (← members.foldlM Draft.put Draft.empty).finish

/-- The issued amount of a record given by place. -/
def ofPlaced? : List Json → Option AmountText
  | [.text value, .text currency, .text issuer] => some (issued value currency issuer)
  | _ => none

/-- Why a JSON value is no record of an amount: the one cause is that it has no such form. -/
inductive RecordFault where
  /-- The value is neither a text nor a record of three texts. -/
  | noVariant
  deriving DecidableEq

/-- The wording of the fault. -/
def RecordFault.message : RecordFault → String
  | noVariant => "data did not match any variant of untagged enum AmountValue"

/-- The amount that a JSON value spells as a record, when it does. -/
def ofRecord? : Json → Option AmountText
  | .text drops => some (native drops)
  | .object members => ofNamed? members
  | .array items => ofPlaced? items
  | _ => none

/-- The amount that a JSON value spells as a record. -/
def ofRecord (j : Json) : Except RecordFault AmountText :=
  match ofRecord? j with
  | some t => .ok t
  | none => .error .noVariant

/-- The record of an amount, its members taken in one after another. -/
def toRecord : AmountText → Json
  | native drops => .text drops
  | issued value currency issuer =>
    Json.ofMembers
      [("value", .text value), ("currency", .text currency), ("issuer", .text issuer)]

end AmountField.AmountText
