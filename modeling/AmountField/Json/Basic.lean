/-
JSON values.

An amount arrives as a JSON value and leaves as one.  The members of an object are kept in
the order of their keys, so a value has one printed form; `insertMember` keeps that order
and lets the last of two equal keys win.  Integers that fit in 64 bits, signed or not, are
told apart from doubles, because messages print them differently.
-/
namespace AmountField

/-- A JSON number. -/
inductive Json.Number where
  /-- A number written without fraction and exponent that fits in 64 bits. -/
  | integer (n : Int)
  /-- Any other number. -/
  | double (x : Float)

/-- A JSON value. -/
inductive Json where
  | null
  | bool (b : Bool)
  | number (n : Json.Number)
  | text (s : String)
  | array (items : List Json)
  | object (members : List (String × Json))

namespace Json

/-- An integer as a value. -/
def ofInt (n : Int) : Json := .number (.integer n)

/-- A natural number as a value. -/
def ofNat (n : Nat) : Json := ofInt n

/-- Adds a member in the order of the keys, in place of one with the same key. -/
def insertMember (key : String) (value : Json) : List (String × Json) → List (String × Json)
  | [] => [(key, value)]
  | (k, v) :: rest =>
    if key < k then (key, value) :: (k, v) :: rest
    else if key = k then (key, value) :: rest
    else (k, v) :: insertMember key value rest

/-- The object with the given members. -/
def ofMembers (members : List (String × Json)) : Json :=
  .object (members.foldl (fun acc (k, v) => insertMember k v acc) [])

/-- The value of a member of an object. -/
def member? (key : String) : Json → Option Json
  | .object members => members.lookup key
  | _ => none

end Json

end AmountField
