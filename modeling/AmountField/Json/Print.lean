/-
The text of a JSON value.

The text is compact, the members of an object follow the order of their keys, and only what
has to be escaped is escaped: the double quote, the backslash and the characters below the
space.  All other characters are written as they are.
-/
import AmountField.Json.Basic
import AmountField.Json.Double

namespace AmountField.Json

/-- Two lower-case hexadecimal digits behind `\u00`. -/
def escapeControl (c : Char) : List Char :=
  "\\u00".toList ++ [Nat.digitChar (c.toNat / 16), Nat.digitChar (c.toNat % 16)]

/-- One character inside a quoted text. -/
def escapeChar (c : Char) : List Char :=
  if c = '"' then ['\\', '"']
  else if c = '\\' then ['\\', '\\']
  else if c = '\x08' then ['\\', 'b']
  else if c = '\x0C' then ['\\', 'f']
  else if c = '\n' then ['\\', 'n']
  else if c = '\r' then ['\\', 'r']
  else if c = '\t' then ['\\', 't']
  else if c.toNat < 0x20 then escapeControl c
  else [c]

/-- A text between double quotes. -/
def renderText (s : String) : List Char := '"' :: s.toList.flatMap escapeChar ++ ['"']

/-- A number: an integer in decimal, a double with its shortest digits. -/
def Number.render : Number → List Char
  | .integer n => (toString n).toList
  | .double x => Double.render x

/-- Items with commas between them. -/
def separated : List (List Char) → List Char
  | [] => []
  | [item] => item
  | item :: rest => item ++ ',' :: separated rest

mutual

/-- The characters of a value. -/
def render : Json → List Char
  | .null => "null".toList
  | .bool true => "true".toList
  | .bool false => "false".toList
  | .number n => n.render
  | .text s => renderText s
  | .array items => '[' :: separated (renderItems items) ++ [']']
  | .object members => '{' :: separated (renderMembers members) ++ ['}']

/-- The characters of each item of an array. -/
def renderItems : List Json → List (List Char)
  | [] => []
  | item :: rest => render item :: renderItems rest

/-- The characters of each member of an object. -/
def renderMembers : List (String × Json) → List (List Char)
  | [] => []
  | (key, value) :: rest => (renderText key ++ ':' :: render value) :: renderMembers rest

end

/-- The text of a value. -/
def print (j : Json) : String := String.ofList j.render

end AmountField.Json
