/-
The bytes of an amount are its frame.

Reading is said with `Takes`: a cursor has moved past certain bytes and nothing else has changed.
The position is a word, so there must be room for the move, and `Takes` says with numbers that there
was.  On data that a position can count there is room for all that is left.

A form is `Framed` when the bytes themselves say how many are asked for, when so many begin with the
bytes of a value, when a value that comes next is read, and when fewer bytes are refused as too few.
A form that is one block asks for the block.  An amount asks for as many bytes as its first one
announces, and its first byte by the leading bit of the value field, which the type of the field
fixes.  So the length that is announced is the length that follows (`frameLength_of_toBytes`), and
a frame taken apart has the bytes of the frame (`toBytes_ofFrame`).
-/
import AmountField.Amount
import AmountField.Proofs.Words

namespace AmountField

/-! ### Cursors -/

namespace Cursor

/-- The position is that of a byte of the data, or behind the last. -/
structure Inside (data : List UInt8) (c : Cursor) : Prop where
  data_eq : c.data = data
  position_le : c.position.toNat ≤ data.length

/-- The second cursor is the first one moved past these bytes. -/
structure Takes (c : Cursor) (bytes : List UInt8) (c' : Cursor) : Prop where
  data_eq : c'.data = c.data
  /-- The position has not come round. -/
  position_eq : c'.position.toNat = c.position.toNat + bytes.length
  rest_eq : c.rest = bytes ++ c'.rest

variable {c c' c'' : Cursor} {bytes more data : List UInt8}

theorem inside_start (data : List UInt8) : (start data).Inside data := ⟨rfl, Nat.zero_le _⟩

theorem atEnd_iff : c.atEnd = true ↔ c.remaining = 0 := by
  rw [atEnd, decide_eq_true_iff, remaining]
  omega

theorem Inside.room (h : c.Inside data) (hdata : data.length < 2 ^ 64) {n : Nat}
    (hle : n ≤ c.remaining) : c.position.toNat + n < 2 ^ 64 := by
  have hposition := h.position_le
  rw [remaining, h.data_eq] at hle
  omega

theorem Takes.refl (c : Cursor) : c.Takes [] c := ⟨rfl, rfl, rfl⟩

theorem Takes.trans (h : c.Takes bytes c') (h' : c'.Takes more c'') :
    c.Takes (bytes ++ more) c'' where
  data_eq := h'.data_eq.trans h.data_eq
  position_eq := by rw [h'.position_eq, h.position_eq, List.length_append, Nat.add_assoc]
  rest_eq := by rw [h.rest_eq, h'.rest_eq, List.append_assoc]

theorem Takes.length_le (h : c.Takes bytes c') : bytes.length ≤ c.remaining := by
  rw [← c.length_rest, h.rest_eq, List.length_append]
  exact Nat.le_add_right _ _

theorem Takes.room (h : c.Takes bytes c') : c.position.toNat + bytes.length < 2 ^ 64 := by
  rw [← h.position_eq]
  exact c'.position.toNat_lt

theorem Takes.inside (h : c.Takes bytes c') (hc : c.Inside data) : c'.Inside data where
  data_eq := h.data_eq.trans hc.data_eq
  position_le := by
    have hle := h.length_le
    have hposition := hc.position_le
    rw [remaining, hc.data_eq] at hle
    rw [h.position_eq]
    omega

/-- There is one cursor behind the bytes that are taken. -/
theorem Takes.unique (h : c.Takes bytes c') (h' : c.Takes bytes c'') : c' = c'' := by
  obtain ⟨data, position⟩ := c'
  obtain ⟨data', position'⟩ := c''
  have hdata : data = data' := h.data_eq.trans h'.data_eq.symm
  have hposition : position = position' :=
    UInt64.toNat_inj.mp (h.position_eq.trans h'.position_eq.symm)
  rw [hdata, hposition]

/-- Where there is room, the position moves by the number of bytes. -/
theorem toNat_advance {n : UInt64} (hroom : c.position.toNat + n.toNat < 2 ^ 64) :
    (c.advance n).position.toNat = c.position.toNat + n.toNat := by
  rw [advance, UInt64.toNat_add, Nat.mod_eq_of_lt hroom]

theorem rest_advance {n : UInt64} (hroom : c.position.toNat + n.toNat < 2 ^ 64) :
    (c.advance n).rest = c.rest.drop n.toNat := by
  rw [rest, toNat_advance hroom, rest, List.drop_drop]
  rfl

theorem takes_advance {n : UInt64} (h : n.toNat ≤ c.remaining)
    (hroom : c.position.toNat + n.toNat < 2 ^ 64) :
    c.Takes (c.block n.toNat h).bytes (c.advance n) where
  data_eq := rfl
  position_eq := by rw [toNat_advance hroom, Block.length_eq]
  rest_eq := by
    rw [rest_advance hroom]
    exact (List.take_append_drop n.toNat c.rest).symm

/-- Bytes that come next can be taken. -/
theorem exists_takes (h : c.rest = bytes ++ more)
    (hroom : c.position.toNat + bytes.length < 2 ^ 64) :
    ∃ c', c.Takes bytes c' ∧ c'.rest = more := by
  have hn : (UInt64.ofNat bytes.length).toNat = bytes.length := by
    rw [UInt64.toNat_ofNat']
    omega
  have hle : (UInt64.ofNat bytes.length).toNat ≤ c.remaining := by
    rw [hn, ← c.length_rest, h, List.length_append]
    exact Nat.le_add_right _ _
  have hblock : (c.block _ hle).bytes = bytes := by
    show c.rest.take _ = bytes
    rw [hn, h, List.take_left]
  have htakes := takes_advance hle (by rwa [hn])
  rw [hblock] at htakes
  refine ⟨_, htakes, ?_⟩
  exact List.append_cancel_left (htakes.rest_eq.symm.trans h)

theorem Takes.split (h : c.Takes (bytes ++ more) c'') :
    ∃ c', c.Takes bytes c' ∧ c'.Takes more c'' := by
  have hroom := h.room
  rw [List.length_append] at hroom
  have hrest : c.rest = bytes ++ (more ++ c''.rest) := h.rest_eq.trans (List.append_assoc _ _ _)
  obtain ⟨c', hfirst, hrest'⟩ := exists_takes hrest (by omega)
  obtain ⟨last, hsecond, -⟩ := exists_takes hrest' (by rw [hfirst.position_eq]; omega)
  rw [← (hfirst.trans hsecond).unique h]
  exact ⟨c', hfirst, hsecond⟩

/-! ### Readers -/

theorem Reader.bind_of_ok {α β : Type} {r : Reader α} {f : α → Reader β} {a : α}
    (h : r c = .ok a c') : (r >>= f) c = f a c' := by
  show EStateM.bind r f c = _
  rw [EStateM.bind, h]

theorem Reader.bind_of_error {α β : Type} {r : Reader α} {f : α → Reader β} {cause : Error}
    (h : r c = .error cause c') : (r >>= f) c = .error cause c' := by
  show EStateM.bind r f c = _
  rw [EStateM.bind, h]

theorem Reader.map_of_ok {α β : Type} {r : Reader α} {f : α → β} {a : α}
    (h : r c = .ok a c') : (f <$> r) c = .ok (f a) c' := by
  show EStateM.map f r c = _
  rw [EStateM.map, h]

theorem Reader.map_of_error {α β : Type} {r : Reader α} {f : α → β} {cause : Error}
    (h : r c = .error cause c') : (f <$> r) c = .error cause c' := by
  show EStateM.map f r c = _
  rw [EStateM.map, h]

theorem peek_of_cons {first : UInt8} (h : c.rest = first :: more) : peek c = .ok first c := by
  rw [peek, h]

theorem peek_of_nil (h : c.rest = []) : peek c = .error (.underrun 1 0) c := by
  rw [peek, h]

theorem readBlock_of_takes {n : UInt64} {b : Block n.toNat} (h : c.Takes b.bytes c') :
    readBlock n c = .ok b c' := by
  have hle : n.toNat ≤ c.remaining := by
    rw [← b.length_eq]
    exact h.length_le
  have hroom := h.room
  rw [b.length_eq] at hroom
  have hblock : c.block n.toNat hle = b := by
    apply Block.ext
    show c.rest.take n.toNat = b.bytes
    rw [h.rest_eq]
    exact List.take_left' b.length_eq
  have hadvance := takes_advance hle hroom
  rw [hblock] at hadvance
  rw [readBlock_of_le hle, hblock, hadvance.unique h]

theorem readWord_of_takes {w : UInt64} (h : c.Takes (Word.toBytes w) c') :
    readWord c = .ok w c' := by
  have hblock : readBlock 8 c = .ok ⟨Word.toBytes w, rfl⟩ c' := readBlock_of_takes h
  rw [readWord, Reader.bind_of_ok hblock, Word.ofBytes_toBytes]
  rfl

end Cursor

/-! ### Forms that tell their length -/

namespace Wire

variable {α : Type}

/-- The front of a byte string says how many bytes a value there takes, and so many are one. -/
structure Framed (α : Type) [Wire α] (need : List UInt8 → Nat) : Prop where
  /-- A position can count what is asked for. -/
  need_lt : ∀ bytes, need bytes < 2 ^ 64
  /-- As many bytes are asked for as the value in front has. -/
  need_append : ∀ (a : α) (tail : List UInt8), need (toBytes a ++ tail) = (toBytes a).length
  /-- Bytes as many as are asked for begin with those of a value. -/
  exists_front : ∀ {bytes}, need bytes ≤ bytes.length →
    ∃ (a : α) (tail : List UInt8), bytes = toBytes a ++ tail
  /-- The value that comes next is read. -/
  read_eq : ∀ {c c' : Cursor} {a : α} (hint : Option Nat),
    c.Takes (toBytes a) c' → read hint c = .ok a c'
  /-- Fewer bytes than are asked for are refused, and the cursor stays. -/
  read_short : ∀ {c : Cursor} (hint : Option Nat), c.remaining < need c.rest →
    (read hint : Cursor.Reader α) c = .error (.underrun (need c.rest) c.remaining) c

/-- A form that is a block of bytes asks for the block. -/
theorem framed_ofBlock {n : UInt64} {value : Block n.toNat → α} {block : α → Block n.toNat}
    (hvalue : ∀ a, value (block a) = a) (hblock : ∀ b, block (value b) = b) :
    @Framed α (ofBlock n value block) fun _ => n.toNat :=
  letI := ofBlock n value block
  { need_lt := fun _ => n.toNat_lt
    need_append := fun a _ => (block a).length_eq.symm
    exists_front := by
      intro bytes hle
      refine ⟨value ⟨bytes.take n.toNat, List.length_take_of_le hle⟩, bytes.drop n.toNat, ?_⟩
      show bytes = (block (value _)).bytes ++ _
      rw [hblock, List.take_append_drop]
    read_eq := by
      intro c c' a hint htakes
      have hread := Cursor.readBlock_of_takes htakes
      show (value <$> Cursor.readBlock n) c = _
      rw [Cursor.Reader.map_of_ok hread, hvalue]
    read_short := by
      intro c hint hfew
      exact Cursor.Reader.map_of_error (Cursor.readBlock_of_lt hfew) }

section

variable [Wire α] {need : List UInt8 → Nat} {c : Cursor}

/-- Where as many bytes are left as are asked for, a value is taken. -/
theorem Framed.exists_takes (h : Framed α need) (hle : need c.rest ≤ c.remaining)
    (hroom : c.position.toNat + need c.rest < 2 ^ 64) :
    ∃ (a : α) (c' : Cursor), c.Takes (toBytes a) c' := by
  obtain ⟨a, tail, hsplit⟩ := h.exists_front (c.length_rest ▸ hle)
  have hneed : need c.rest = (toBytes a).length := by rw [hsplit, h.need_append]
  obtain ⟨c', htakes, -⟩ := Cursor.exists_takes hsplit (by rwa [← hneed])
  exact ⟨a, c', htakes⟩

theorem Framed.exists_takes_start (h : Framed α need) (a : α) (tail : List UInt8) :
    ∃ c, (Cursor.start (toBytes a ++ tail)).Takes (toBytes a) c ∧ c.rest = tail := by
  have hlt := h.need_lt (toBytes a ++ tail)
  rw [h.need_append, ← Nat.zero_add (toBytes a).length] at hlt
  exact Cursor.exists_takes rfl hlt

theorem Framed.length_toBytes (h : Framed α need) (a : α) :
    (toBytes a).length = need (toBytes a) := by
  have hneed := h.need_append a []
  rw [List.append_nil] at hneed
  exact hneed.symm

end

end Wire

theorem Currency.framed : Wire.Framed Currency fun _ => 20 :=
  Wire.framed_ofBlock (n := 20) (fun _ => rfl) fun _ => rfl

theorem Account.framed : Wire.Framed Account fun _ => 20 :=
  Wire.framed_ofBlock (n := 20) (fun _ => rfl) fun _ => rfl

/-! ### The first byte -/

theorem ValueField.signOf_toBytes_iff (w : UInt64) :
    signOf (Word.toBytes w) = true ↔ w &&& signBit ≠ 0 := by
  show decide ((w >>> 56).toUInt8 &&& 0x40 ≠ 0) = true ↔ _
  rw [decide_eq_true_iff, Ne, Ne, Word.firstByte_and_bit_eq_zero_iff (n := 6) rfl,
    Word.and_bit_eq_zero_iff (n := 62) rfl]

namespace Amount

theorem toNat_frameLength (first : UInt8) :
    (frameLength first).toNat = if first &&& 0x80 = 0 then 8 else 48 := by
  unfold frameLength ValueField.leadsIssued
  by_cases hclear : first &&& 0x80 = 0 <;> simp [hclear]

theorem leadsIssued_of_toBytes {a : Amount} {first : UInt8} {more : List UInt8}
    (h : a.toBytes = first :: more) : ValueField.leadsIssued first = !a.isNative := by
  cases a with
  | native field =>
      have hfirst : first = (field.word >>> 56).toUInt8 := (List.cons.inj h).1.symm
      have hclear : ¬ ValueField.leadsIssued first = true := by
        rw [hfirst, ValueField.leadsIssued_iff, UInt64.not_le]
        exact field.leading_clear
      exact Bool.eq_false_of_not_eq_true hclear
  | issued field currency issuer =>
      have hfirst : first = (field.word >>> 56).toUInt8 := (List.cons.inj h).1.symm
      have hset : ValueField.leadsIssued first = true := by
        rw [hfirst, ValueField.leadsIssued_iff]
        exact field.leading_set
      exact hset

theorem length_toBytes (a : Amount) : a.toBytes.length = if a.isNative then 8 else 48 := by
  cases a with
  | native field => rfl
  | issued field currency issuer =>
      rw [toBytes, List.length_append, List.length_append, Word.length_toBytes]
      exact congrArg₂ (8 + · + ·) currency.block.length_eq issuer.block.length_eq

/-- The length that the first byte of an amount announces is that of its bytes. -/
theorem frameLength_of_toBytes {a : Amount} {first : UInt8} {more : List UInt8}
    (h : a.toBytes = first :: more) : (frameLength first).toNat = a.toBytes.length := by
  rw [frameLength, leadsIssued_of_toBytes h, length_toBytes]
  cases a.isNative <;> rfl

theorem length_toBytes_ge (a : Amount) : 8 ≤ a.toBytes.length := by
  rw [length_toBytes]
  split <;> decide

theorem exists_toBytes_eq_cons (a : Amount) : ∃ first more, a.toBytes = first :: more :=
  List.exists_cons_of_ne_nil
    (List.ne_nil_of_length_pos (Nat.lt_of_lt_of_le (by decide) a.length_toBytes_ge))

theorem toBytes_injective {a b : Amount} (h : a.toBytes = b.toBytes) : a = b := by
  have hword : ∀ {v w : UInt64}, Word.toBytes v = Word.toBytes w → v = w := by
    intro v w hbytes
    rw [← Word.ofBytes_toBytes v, hbytes, Word.ofBytes_toBytes]
  have hkind := congrArg List.length h
  rw [length_toBytes, length_toBytes] at hkind
  cases a with
  | native f =>
      cases b with
      | native g =>
          obtain ⟨v, hv⟩ := f
          obtain ⟨w, hw⟩ := g
          cases hword h
          rfl
      | issued g currency issuer => exact absurd hkind (by decide : ¬ 8 = 48)
  | issued f currency issuer =>
      cases b with
      | native g => exact absurd hkind (by decide : ¬ 48 = 8)
      | issued g currency' issuer' =>
          obtain ⟨v, hv⟩ := f
          obtain ⟨w, hw⟩ := g
          have hlength := issuer.block.length_eq.trans issuer'.block.length_eq.symm
          obtain ⟨hfront, hissuer⟩ := List.append_inj' h hlength
          obtain ⟨hfield, hcurrency⟩ := List.append_inj hfront rfl
          cases hword hfield
          obtain ⟨b⟩ := currency
          obtain ⟨b'⟩ := currency'
          obtain ⟨d⟩ := issuer
          obtain ⟨d'⟩ := issuer'
          have hb : b = b' := Block.ext hcurrency
          have hd : d = d' := Block.ext hissuer
          rw [hb, hd]

/-- **A frame taken apart has the bytes of the frame.** -/
theorem toBytes_ofFrame (first : UInt8) (more : Block ((frameLength first).toNat - 1)) :
    (ofFrame first more).toBytes = first :: more.bytes := by
  have hvalue : ∀ value : Block 7, Word.toBytes (Word.ofBytes (first :: value.bytes))
      = first :: value.bytes := fun value =>
    Word.toBytes_ofBytes (congrArg (· + 1) value.length_eq)
  unfold ofFrame
  split
  · rename_i hissued
    have hlength : more.bytes.length = 47 :=
      more.length_eq.trans (by rw [frameLength, if_pos hissued]; rfl)
    have hissuer : (more.bytes.drop 27).take 20 = more.bytes.drop 27 :=
      List.take_of_length_le (by rw [List.length_drop, hlength])
    show Word.toBytes _ ++ (more.bytes.drop 7).take 20 ++ (more.bytes.drop 27).take 20 = _
    rw [hvalue, hissuer, List.append_assoc, ← List.drop_drop (i := 20) (j := 7),
      List.take_append_drop, List.cons_append]
    exact congrArg (first :: ·) (List.take_append_drop 7 more.bytes)
  · rename_i hnative
    have hlength : more.bytes.length = 7 :=
      more.length_eq.trans (by rw [frameLength, if_neg hnative]; rfl)
    show Word.toBytes _ = _
    rw [hvalue]
    exact congrArg (first :: ·) (List.take_of_length_le (Nat.le_of_eq hlength))

/-! ### Reading a frame -/

/-- How many bytes are asked for at the front of these: a first one, and where there is one, the
frame that its leading bit announces. -/
def need : List UInt8 → Nat
  | [] => 1
  | first :: _ => if first &&& 0x80 = 0 then 8 else 48

theorem need_cons (first : UInt8) (more : List UInt8) :
    need (first :: more) = (frameLength first).toNat :=
  (toNat_frameLength first).symm

theorem need_pos (bytes : List UInt8) : 0 < need bytes := by
  cases bytes with
  | nil => decide
  | cons first more =>
      rw [need]
      split <;> decide

variable {c c' : Cursor}

/-- **An amount whose bytes come next is read.** -/
theorem read_of_takes {a : Amount} (h : c.Takes a.toBytes c') : read c = .ok a c' := by
  obtain ⟨first, more, hbytes⟩ := a.exists_toBytes_eq_cons
  have hrest : c.rest = first :: (more ++ c'.rest) := by
    rw [h.rest_eq, hbytes, List.cons_append]
  let frame : Block (frameLength first).toNat := ⟨a.toBytes, (frameLength_of_toBytes hbytes).symm⟩
  have hframe : Cursor.readBlock (frameLength first) c = .ok frame c' :=
    Cursor.readBlock_of_takes h
  have hamount : ofFrame first frame.tail = a := by
    apply toBytes_injective
    rw [toBytes_ofFrame]
    show first :: a.toBytes.tail = a.toBytes
    rw [hbytes, List.tail_cons]
  rw [read, Cursor.Reader.bind_of_ok (Cursor.peek_of_cons hrest),
    Cursor.Reader.bind_of_ok hframe, hamount]
  rfl

theorem read_of_short (h : c.remaining < need c.rest) :
    read c = .error (.underrun (need c.rest) c.remaining) c := by
  cases hrest : c.rest with
  | nil =>
      rw [read, Cursor.Reader.bind_of_error (Cursor.peek_of_nil hrest), ← c.length_rest, hrest]
      rfl
  | cons first more =>
      rw [hrest, need_cons] at h
      rw [read, Cursor.Reader.bind_of_ok (Cursor.peek_of_cons hrest),
        Cursor.Reader.bind_of_error (Cursor.readBlock_of_lt h), need_cons]

/-- **An amount tells its length in its first byte.** -/
theorem framed : Wire.Framed Amount need where
  need_lt := by
    intro bytes
    cases bytes with
    | nil => decide
    | cons first more =>
        rw [need_cons]
        exact UInt64.toNat_lt _
  need_append := by
    intro a tail
    obtain ⟨first, more, hbytes⟩ := a.exists_toBytes_eq_cons
    show need (a.toBytes ++ tail) = a.toBytes.length
    rw [← frameLength_of_toBytes hbytes, hbytes, List.cons_append, need_cons]
  exists_front := by
    intro bytes hle
    cases bytes with
    | nil => exact absurd hle (by decide)
    | cons first more =>
        rw [need_cons, List.length_cons] at hle
        let n := (frameLength first).toNat - 1
        have hn : n ≤ more.length := Nat.sub_le_of_le_add hle
        refine ⟨ofFrame first ⟨more.take n, List.length_take_of_le hn⟩, more.drop n, ?_⟩
        show _ = toBytes _ ++ _
        rw [toBytes_ofFrame, List.cons_append, List.take_append_drop]
  read_eq := fun _ htakes => read_of_takes htakes
  read_short := fun _ hfew => read_of_short hfew

/-- What is read as an amount is the front of what is left, on data of any length. -/
theorem prefix_of_read {a : Amount} (h : read c = .ok a c') : a.toBytes <+: c.rest := by
  rcases Nat.lt_or_ge c.remaining (need c.rest) with hshort | hwhole
  · rw [read_of_short hshort] at h
    cases h
  · cases hrest : c.rest with
    | nil =>
        rw [← c.length_rest, hrest] at hwhole
        exact absurd hwhole (by decide)
    | cons first more =>
        rw [hrest, need_cons] at hwhole
        rw [read, Cursor.Reader.bind_of_ok (Cursor.peek_of_cons hrest),
          Cursor.Reader.bind_of_ok (Cursor.readBlock_of_le hwhole)] at h
        cases h
        have hpos : 0 < (frameLength first).toNat := need_cons first more ▸ need_pos _
        rw [toBytes_ofFrame]
        show first :: (c.rest.take (frameLength first).toNat).tail <+: first :: more
        rw [hrest, List.take_cons hpos, List.tail_cons]
        exact List.cons_prefix_cons.mpr ⟨rfl, List.take_prefix _ _⟩

/-- **What is read as an amount is the bytes that came next.** -/
theorem takes_of_read {a : Amount} (hdata : c.data.length < 2 ^ 64) (h : read c = .ok a c') :
    c.Takes a.toBytes c' := by
  rcases Nat.lt_or_ge c.remaining (need c.rest) with hshort | hwhole
  · rw [read_of_short hshort] at h
    cases h
  · have hpos := need_pos c.rest
    have hinside : c.Inside c.data := ⟨rfl, by rw [Cursor.remaining] at hwhole; omega⟩
    obtain ⟨a', c'', htakes⟩ := framed.exists_takes hwhole (hinside.room hdata hwhole)
    have hread : read c = .ok a' c'' := read_of_takes htakes
    rw [hread] at h
    cases h
    exact htakes

end Amount

end AmountField
