/-
Amounts as people write them.

A native amount is a text, its number of drops.  An issued amount is three texts: the value,
the currency and the issuer.  As JSON, the first is a bare text and the second an object with
exactly these three members.  `ofJson` first looks at the shape of a value, and what has
neither shape is no amount at all; only then does it look at the members, in the order value,
currency, issuer, and the first that is not a text is named.
-/
import AmountField.Error

namespace AmountField

/-- An amount as it is written. -/
inductive AmountText where
  /-- A number of drops. -/
  | native (drops : String)
  /-- A value in a currency that an account issues. -/
  | issued (value currency issuer : String)
  deriving DecidableEq

namespace AmountText

/-- Whether this is a native amount. -/
def isNative : AmountText → Bool
  | native _ => true
  | issued .. => false

/-! ### As JSON -/

/-- The JSON value of an amount, its members in the order of their keys. -/
def toJson : AmountText → Json
  | native drops => .text drops
  | issued value currency issuer =>
    .object [("currency", .text currency), ("issuer", .text issuer), ("value", .text value)]

/-- Whether the members have exactly the keys of an issued amount. -/
def hasIssuedShape (members : List (String × Json)) : Bool :=
  members.length = 3
    && ["currency", "issuer", "value"].all fun key => members.any fun m => m.1 = key

/-- The text of a member of an issued amount. -/
def memberText (whole : Json) (key : String) : Except Error String :=
  match whole.member? key with
  | some (.text s) => .ok s
  | some other => .error (.memberNotText key other)
  | none => .error (.memberMissing key)

/-- The amount that a JSON value spells. -/
def ofJson (j : Json) : Except Error AmountText :=
  match j with
  | .text drops => .ok (native drops)
  | .object members =>
    if hasIssuedShape members then do
      let value ← memberText j "value"
      let currency ← memberText j "currency"
      let issuer ← memberText j "issuer"
      return issued value currency issuer
    else .error (.notAnAmount j)
  | other => .error (.notAnAmount other)

end AmountText

end AmountField
