/-
Quoted characters and texts, as messages show them.

A quoted text is written between double quotes and a quoted character between single ones.
Inside, the backslash and the mark that encloses are written behind a backslash, four
control characters have a letter of their own, and every other character that a reader
could not see is written as its number, `\u` and the lower-case digits between braces.
-/
import AmountField.Text.Printable

namespace AmountField.Text

/-- The number of a character between braces, in lower-case hexadecimal. -/
def escapeByNumber (c : Char) : List Char :=
  "\\u\x7b".toList ++ Nat.toDigits 16 c.toNat ++ ['}']

/-- One character as it stands between two copies of `mark`. -/
def escapeChar (mark : Char) (c : Char) : List Char :=
  if c = '\x00' then ['\\', '0']
  else if c = '\t' then ['\\', 't']
  else if c = '\r' then ['\\', 'r']
  else if c = '\n' then ['\\', 'n']
  else if c = '\\' then ['\\', '\\']
  else if c = mark then ['\\', mark]
  else if isPrintable c then [c]
  else escapeByNumber c

/-- A character between single quotes. -/
def quoteChar (c : Char) : String :=
  String.ofList ('\'' :: escapeChar '\'' c ++ ['\''])

/-- A text between double quotes. -/
def quote (text : String) : String :=
  String.ofList ('"' :: text.toList.flatMap (escapeChar '"') ++ ['"'])

end AmountField.Text
