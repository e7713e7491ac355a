/-
Currency codes.

A currency is a block of 20 bytes with up to three spellings.  The native currency is the
block of zeros and is spelled `XRP`.  A block of twelve zeros, three bytes of the code
alphabet and five zeros is spelled by the three characters, except that they may not be the
native code: that one block has no code.  Every block is spelled by its 40 hexadecimal
digits, and one with no shorter spelling is shown that way.
-/
import AmountField.Wire

namespace AmountField

/-- A currency as its 20 bytes. -/
structure Currency where
  block : Block 20
  deriving DecidableEq

namespace Currency

/-- The code of the native currency. -/
def nativeCode : String := "XRP"

/-- The native currency. -/
def native : Currency := ⟨Block.zero 20⟩

/-- Whether this is the native currency. -/
def isNative (c : Currency) : Bool := c.block.isZero

/-! ### Three-character codes -/

/-- The characters of a code other than letters and digits. -/
def codeSymbols : List Char := "?!@#$%^&*<>()\x7b\x7d[]|".toList

/-- Whether the character may stand in a three-character code. -/
def isCodeChar (c : Char) : Bool := c.isAlphanum || codeSymbols.contains c

/-- The zero bytes in front of a three-character code. -/
def leadLength : Nat := 12

/-- The zero bytes behind a three-character code. -/
def trailLength : Nat := 5

/-- The block of zeros with three bytes put in their place. -/
def standardBlock (a b c : UInt8) : Block 20 where
  bytes := List.replicate leadLength 0 ++ [a, b, c] ++ List.replicate trailLength 0
  length_eq := rfl

/-- The three bytes of a block that is zero around them. -/
def standardBytes? (block : Block 20) : Option (List UInt8) :=
  let tail := block.bytes.drop leadLength
  if (block.bytes.take leadLength).all (· == 0) && (tail.drop 3).all (· == 0) then
    some (tail.take 3)
  else none

/-! ### Codes -/

/-- The currency of 40 hexadecimal digits. -/
def ofHexCode (code : String) : Except Error Currency :=
  match Hex.decode (octets code) with
  | .error fault => .error (.malformedCurrency code fault)
  | .ok bytes =>
    match Block.ofList? 20 bytes with
    | some block => .ok ⟨block⟩
    | none => .error (.unsupportedCurrency code)

/-- The currency that a code spells. -/
def ofCode (code : String) : Except Error Currency :=
  if code = nativeCode then .ok native
  else
    match code.toList with
    | [a, b, c] =>
      if isCodeChar a && isCodeChar b && isCodeChar c then
        .ok ⟨standardBlock a.toUInt8 b.toUInt8 c.toUInt8⟩
      else .error (.unsupportedCurrency code)
    | _ => if (octets code).length = 40 then ofHexCode code else .error (.unsupportedCurrency code)

/-- The 40 digits of a currency. -/
def toHexCode (c : Currency) : String := Hex.encode c.block.bytes

/-- The shortest code of a currency. -/
def toCode (c : Currency) : Except Error String :=
  if c.isNative then .ok nativeCode
  else
    match standardBytes? c.block with
    | none => .ok c.toHexCode
    | some bytes =>
      let code := bytes.map Char.ofUInt8
      if code = nativeCode.toList then .error .disallowedCurrency
      else if code.all isCodeChar then .ok (String.ofList code)
      else .ok c.toHexCode

/-- The code of a currency, or its digits where it has none. -/
def display (c : Currency) : String :=
  match c.toCode with
  | .ok code => code
  | .error _ => c.toHexCode

/-! ### On the wire and as JSON -/

instance : Wire Currency := .ofBlock 20 mk block

/-- The currency that a JSON value names. -/
def ofJson : Json → Except Error Currency
  | .text code => ofCode code
  | other => .error (.currencyNotText other)

/-- The code of a currency as a JSON value. -/
def toJson (c : Currency) : Except Error Json := c.toCode.map Json.text

end Currency

end AmountField
