/-
Bytes, blocks and 64-bit words.

Every field of the ledger format is a run of bytes with its most significant byte first.
Three things about bytes are fixed here.  A `Block n` is a run whose length is known, so
that a currency code or an account can never be short.  A word is laid out big-endian by
`Word.toBytes` and read back by `Word.ofBytes`.  `octets` is the text of a string as the
format sees it, its UTF-8 bytes: the lengths that the format tests, 3 and 40, are lengths
of that list.
-/
namespace AmountField

/-- A run of exactly `n` bytes. -/
structure Block (n : Nat) where
  bytes : List UInt8
  length_eq : bytes.length = n
  deriving DecidableEq

namespace Block

/-- The block of `n` zero bytes. -/
def zero (n : Nat) : Block n := ⟨List.replicate n 0, List.length_replicate⟩

/-- The list as a block, when it has the right length. -/
def ofList? (n : Nat) (bytes : List UInt8) : Option (Block n) :=
  if h : bytes.length = n then some ⟨bytes, h⟩ else none

/-- Whether every byte is zero. -/
def isZero {n : Nat} (b : Block n) : Bool := b.bytes.all (· == 0)

/-- All bytes but the first. -/
def tail {n : Nat} (b : Block n) : Block (n - 1) :=
  ⟨b.bytes.tail, by rw [List.length_tail, b.length_eq]⟩

/-- The `k` bytes behind the first `i`. -/
def slice {n : Nat} (b : Block n) (i k : Nat) (h : i + k ≤ n) : Block k :=
  ⟨(b.bytes.drop i).take k, by rw [List.length_take, List.length_drop, b.length_eq]; omega⟩

@[ext]
theorem ext {n : Nat} {a b : Block n} (h : a.bytes = b.bytes) : a = b := by
  cases a; cases b; cases h; rfl

@[simp]
theorem ofList?_bytes {n : Nat} (b : Block n) : ofList? n b.bytes = some b := by
  simp [ofList?, b.length_eq]

theorem ofList?_eq_some_iff {n : Nat} {bytes : List UInt8} {b : Block n} :
    ofList? n bytes = some b ↔ bytes = b.bytes := by
  constructor
  · intro h
    unfold ofList? at h
    split at h
    · cases h; rfl
    · cases h
  · rintro rfl
    exact ofList?_bytes b

end Block

/-! ### Words -/

namespace Word

/-- The eight bytes of a word, most significant first. -/
def toBytes (w : UInt64) : List UInt8 :=
  [(w >>> 56).toUInt8, (w >>> 48).toUInt8, (w >>> 40).toUInt8, (w >>> 32).toUInt8,
   (w >>> 24).toUInt8, (w >>> 16).toUInt8, (w >>> 8).toUInt8, w.toUInt8]

/-- The word that a run of bytes spells, most significant first. -/
def ofBytes (bytes : List UInt8) : UInt64 :=
  bytes.foldl (fun w b => w <<< 8 ||| b.toUInt64) 0

@[simp]
theorem length_toBytes (w : UInt64) : (toBytes w).length = 8 := rfl

theorem toNat_shift_or (w : UInt64) (b : UInt8) :
    (w <<< 8 ||| b.toUInt64).toNat = (256 * w.toNat + b.toNat) % UInt64.size := by
  have hb : b.toNat < 2 ^ 8 := b.toNat_lt
  rw [UInt64.toNat_or, UInt64.toNat_shiftLeft, UInt8.toNat_toUInt64]
  have h8 : (8 : UInt64).toNat % 64 = 8 := rfl
  -- the shift pushes the top byte out, so what is left is a multiple of 2 ^ 8
  have hshift : w.toNat * 2 ^ 8 % 2 ^ 64 = (w.toNat % 2 ^ 56) <<< 8 := by
    rw [Nat.shiftLeft_eq]; omega
  rw [h8, Nat.shiftLeft_eq, hshift, ← Nat.shiftLeft_add_eq_or_of_lt hb, Nat.shiftLeft_eq]
  simp only [UInt64.size]
  omega

/-- A run of bytes spells its base-256 numeral, of which a word keeps the low 64 bits. -/
theorem toNat_ofBytes (bytes : List UInt8) :
    (ofBytes bytes).toNat = bytes.foldl (fun n b => 256 * n + b.toNat) 0 % UInt64.size := by
  have general : ∀ (bytes : List UInt8) (w : UInt64) (n : Nat), w.toNat = n % UInt64.size →
      (bytes.foldl (fun (w : UInt64) b => w <<< 8 ||| b.toUInt64) w).toNat
        = bytes.foldl (fun n b => 256 * n + b.toNat) n % UInt64.size := by
    intro bytes
    induction bytes with
    | nil => intro w n h; exact h
    | cons b rest ih =>
      intro w n h
      apply ih
      show _ = (256 * n + b.toNat) % UInt64.size
      rw [toNat_shift_or, h]
      simp only [UInt64.size]
      omega
  exact general bytes 0 0 rfl

@[simp]
theorem ofBytes_toBytes (w : UInt64) : ofBytes (toBytes w) = w := by
  have hw : w.toNat < 2 ^ 64 := w.toNat_lt
  apply UInt64.toNat_inj.1
  rw [toNat_ofBytes]
  simp [toBytes, UInt64.size, Nat.shiftRight_eq_div_pow]
  omega

theorem toBytes_ofBytes {bytes : List UInt8} (h : bytes.length = 8) :
    toBytes (ofBytes bytes) = bytes := by
  match bytes, h with
  | [a, b, c, d, e, f, g, i], _ =>
    have ha := a.toNat_lt; have hb := b.toNat_lt; have hc := c.toNat_lt; have hd := d.toNat_lt
    have he := e.toNat_lt; have hf := f.toNat_lt; have hg := g.toNat_lt; have hi := i.toNat_lt
    have hn := toNat_ofBytes [a, b, c, d, e, f, g, i]
    simp only [List.foldl_cons, List.foldl_nil, UInt64.size] at hn
    simp only [toBytes, List.cons.injEq, ← UInt8.toNat_inj]
    simp [hn, Nat.shiftRight_eq_div_pow]
    omega

end Word

/-! ### Text as bytes -/

/-- The UTF-8 bytes of a text. -/
def octets (text : String) : List UInt8 := text.toList.flatMap String.utf8EncodeChar

@[simp]
theorem octets_ofList (cs : List Char) :
    octets (String.ofList cs) = cs.flatMap String.utf8EncodeChar := by
  simp [octets]

theorem length_octets_bounds (text : String) :
    text.toList.length ≤ (octets text).length ∧ (octets text).length ≤ 4 * text.toList.length := by
  unfold octets
  induction text.toList with
  | nil => simp
  | cons c rest ih =>
    have pos := c.utf8Size_pos
    have le := c.utf8Size_le_four
    rw [List.flatMap_cons, List.length_append, String.length_utf8EncodeChar, List.length_cons]
    omega

end AmountField
