/-
Reading JSON text.

`read?` takes the whole text for one value.  The reader descends by the structure of the
text; every call either takes a character off it or passes it on to a reader that does, so
twice its length is fuel enough.  A number stays an integer as long as it has neither
fraction nor exponent and fits in 64 bits.
-/
import AmountField.Json.Basic
import AmountField.Json.Double

namespace AmountField.Json.Read

/-- What is left behind blanks. -/
def skipBlanks : List Char → List Char :=
  List.dropWhile fun c => c = ' ' || c = '\n' || c = '\t' || c = '\r'

/-- What is left behind a fixed word. -/
def after? : List Char → List Char → Option (List Char)
  | [], cs => some cs
  | w :: ws, c :: cs => if w = c then after? ws cs else none
  | _ :: _, [] => none

/-! ### Text -/

/-- The number that a hexadecimal digit stands for. -/
def hexValue? (c : Char) : Option Nat :=
  if c.isDigit then some (c.toNat - 48)
  else if 'a' ≤ c ∧ c ≤ 'f' then some (c.toNat - 87)
  else if 'A' ≤ c ∧ c ≤ 'F' then some (c.toNat - 55)
  else none

/-- The number of four hexadecimal digits, and what is left behind them. -/
def fourHex? : List Char → Option (Nat × List Char)
  | a :: b :: c :: d :: rest => do
    let a ← hexValue? a
    let b ← hexValue? b
    let c ← hexValue? c
    let d ← hexValue? d
    return (((a * 16 + b) * 16 + c) * 16 + d, rest)
  | _ => none

/-- The character behind `\u`, which may need a second such number. -/
def numbered? (cs : List Char) : Option (Char × List Char) := do
  let (high, rest) ← fourHex? cs
  if 0xD800 ≤ high ∧ high < 0xDC00 then
    let (low, rest) ← fourHex? (← after? ['\\', 'u'] rest)
    if 0xDC00 ≤ low ∧ low < 0xE000 then
      some (Char.ofNat (0x10000 + (high - 0xD800) * 0x400 + (low - 0xDC00)), rest)
    else none
  else if 0xDC00 ≤ high ∧ high < 0xE000 then none
  else some (Char.ofNat high, rest)

/-- The character behind a backslash. -/
def escaped? : List Char → Option (Char × List Char)
  | '"' :: rest => some ('"', rest)
  | '\\' :: rest => some ('\\', rest)
  | '/' :: rest => some ('/', rest)
  | 'b' :: rest => some ('\x08', rest)
  | 'f' :: rest => some ('\x0C', rest)
  | 'n' :: rest => some ('\n', rest)
  | 'r' :: rest => some ('\r', rest)
  | 't' :: rest => some ('\t', rest)
  | 'u' :: rest => numbered? rest
  | _ => none

/-- The characters up to the closing quote, onto those already read in reverse. -/
def quoted? : Nat → List Char → List Char → Option (String × List Char)
  | 0, _, _ => none
  | _ + 1, _, [] => none
  | fuel + 1, acc, c :: rest =>
    if c = '"' then some (String.ofList acc.reverse, rest)
    else if c = '\\' then do
      let (d, rest) ← escaped? rest
      quoted? fuel (d :: acc) rest
    else if c.toNat < 0x20 then none
    else quoted? fuel (c :: acc) rest

/-! ### Numbers -/

/-- The digits at the front, and what is left behind them. -/
def digits (cs : List Char) : List Char × List Char := cs.span Char.isDigit

/-- Takes digits into a significand while it fits in 64 bits, and gives those left over. -/
def absorb (n : Nat) : List Char → Nat × List Char
  | [] => (n, [])
  | d :: rest =>
    let m := n * 10 + (d.toNat - 48)
    if m < UInt64.size then absorb m rest else (n, d :: rest)

/-- The exponent of a number that has one, and what is left behind it. -/
def exponent? : List Char → Option (Int × List Char)
  | [] => some (0, [])
  | c :: rest =>
    if c = 'e' || c = 'E' then
      let (negative, rest) : Bool × List Char := match rest with
        | '+' :: rest => (false, rest)
        | '-' :: rest => (true, rest)
        | rest => (false, rest)
      match digits rest with
      | ([], _) => none
      | (ds, rest) =>
        let n : Int := Nat.ofDigitChars 10 ds 0
        some (if negative then -n else n, rest)
    else some (0, c :: rest)

/-- The fraction digits of a number that has any, and what is left behind them. -/
def fraction? : List Char → Option (List Char × List Char)
  | '.' :: rest =>
    match digits rest with
    | ([], _) => none
    | (ds, rest) => some (ds, rest)
  | rest => some ([], rest)

/-- A number without fraction and exponent, when it fits in 64 bits. -/
def integer? (negative : Bool) (ds : List Char) : Option Int :=
  let n := Nat.ofDigitChars 10 ds 0
  if negative then
    if 0 < n ∧ n ≤ 0x8000000000000000 then some (-n) else none
  else if n < UInt64.size then some n else none

/-- A number behind its sign. -/
def number? (negative : Bool) (cs : List Char) : Option (Number × List Char) := do
  let (whole, rest) := digits cs
  match whole with
  | [] | '0' :: _ :: _ => none
  | _ =>
    let (fractional, tail) ← fraction? rest
    let (power, left) ← exponent? tail
    -- untouched text behind the digits means that there was neither point nor exponent
    let plain := left.length = rest.length
    match if plain then integer? negative whole else none with
    | some n => some (.integer n, left)
    | none =>
      let (head, excess) := absorb 0 whole
      let (significand, dropped) := absorb head fractional
      let scale : Int := (excess.length : Int) - (fractional.length - dropped.length)
      let x ← Double.ofParts negative (UInt64.ofNat significand) (scale + power)
      some (.double x, left)

/-! ### Values -/

mutual

/-- The value at the front of the text, and what is left behind it. -/
def value? : Nat → List Char → Option (Json × List Char)
  | 0, _ => none
  | fuel + 1, cs =>
    match skipBlanks cs with
    | '"' :: rest => (quoted? (rest.length + 1) [] rest).map fun (s, rest) => (.text s, rest)
    | '[' :: rest =>
      match skipBlanks rest with
      | ']' :: rest => some (.array [], rest)
      | rest => (items? fuel rest).map fun (items, rest) => (.array items, rest)
    | '{' :: rest =>
      match skipBlanks rest with
      | '}' :: rest => some (.object [], rest)
      | rest => (members? fuel rest).map fun (members, rest) => (ofMembers members, rest)
    | '-' :: rest => (number? true rest).map fun (n, rest) => (.number n, rest)
    | c :: rest =>
      if c.isDigit then (number? false (c :: rest)).map fun (n, rest) => (.number n, rest)
      else if c = 'n' then (after? ['u', 'l', 'l'] rest).map fun rest => (.null, rest)
      else if c = 't' then (after? ['r', 'u', 'e'] rest).map fun rest => (.bool true, rest)
      else if c = 'f' then (after? ['a', 'l', 's', 'e'] rest).map fun rest => (.bool false, rest)
      else none
    | [] => none

/-- The items of an array up to its closing bracket. -/
def items? : Nat → List Char → Option (List Json × List Char)
  | 0, _ => none
  | fuel + 1, cs =>
    match value? fuel cs with
    | none => none
    | some (item, rest) =>
      match skipBlanks rest with
      | ',' :: rest => (items? fuel rest).map fun (items, rest) => (item :: items, rest)
      | ']' :: rest => some ([item], rest)
      | _ => none

/-- The members of an object up to its closing brace, in the order of the text. -/
def members? : Nat → List Char → Option (List (String × Json) × List Char)
  | 0, _ => none
  | fuel + 1, cs =>
    match skipBlanks cs with
    | '"' :: rest =>
      match quoted? (rest.length + 1) [] rest with
      | none => none
      | some (key, rest) =>
        match skipBlanks rest with
        | ':' :: rest =>
          match value? fuel rest with
          | none => none
          | some (value, rest) =>
            match skipBlanks rest with
            | ',' :: rest =>
              (members? fuel rest).map fun (members, rest) => ((key, value) :: members, rest)
            | '}' :: rest => some ([(key, value)], rest)
            | _ => none
        | _ => none
    | _ => none

end

end Read

/-- The value that a text spells, with nothing but blanks around it. -/
def read? (text : String) : Option Json :=
  let cs := text.toList
  match Read.value? (2 * cs.length + 2) cs with
  | some (j, rest) => if (Read.skipBlanks rest).isEmpty then some j else none
  | none => none

end AmountField.Json
