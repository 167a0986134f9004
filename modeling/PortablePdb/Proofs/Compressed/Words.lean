import PortablePdb.Proofs.Compressed.Shortest
import PortablePdb.Proofs.Cursor.Effects

/-!
# Compressed integers in machine words

The stored form of an integer has so far been described by arithmetic: what a width leaves of a
number is a remainder, and a negative number is counted from the least one of its width. Here it is
computed with masks, shifts and rotations of machine words. Bits that are put side by side do not
overlap, so the disjunction of two words is their sum (`toNat_or`).

A signed number is rotated left by one, which takes its sign to the lowest bit. Whoever reads it has
to put the sign back in front, and can only tell from the number of bytes that were read how many
bits are missing there (`signBits`).

* `readWord_eq`, `readSignedWord_eq`: both ways of reading give the same number, error and position.
* `writeWord_eq`, `writeSignedWord_eq`: both ways of writing give the same bytes or error.
-/

namespace PortablePdb

/-! ## Bits side by side -/

namespace Compressed

/-- A word that is a multiple of a power of two, and one below that power, have no common bits. -/
theorem toNat_or (k a : Nat) {high low : UInt32} (hhigh : high.toNat = 2 ^ k * a)
    (hlow : low.toNat < 2 ^ k) : (high ||| low).toNat = high.toNat + low.toNat := by
  rw [UInt32.toNat_or, hhigh, Nat.two_pow_add_eq_or_of_lt hlow]

/-- A mask of the lowest bits leaves the remainder. -/
theorem toNat_and (k : Nat) {word mask : UInt32} (hmask : mask.toNat = 2 ^ k - 1) :
    (word &&& mask).toNat = word.toNat % 2 ^ k := by
  rw [UInt32.toNat_and, hmask, Nat.and_two_pow_sub_one_eq_mod]

/-- A shift to the left that loses no bits. -/
theorem toNat_shiftLeft (k : Nat) {word shift : UInt32} (hshift : shift.toNat = k) (hk : k < 32)
    (h : 2 ^ k * word.toNat < 2 ^ 32) : (word <<< shift).toNat = 2 ^ k * word.toNat := by
  rw [UInt32.toNat_shiftLeft, hshift, Nat.mod_eq_of_lt hk, Nat.shiftLeft_eq, Nat.mul_comm,
    Nat.mod_eq_of_lt h]

theorem toNat_shiftRight (k : Nat) {word shift : UInt32} (hshift : shift.toNat = k) (hk : k < 32) :
    (word >>> shift).toNat = word.toNat / 2 ^ k := by
  rw [UInt32.toNat_shiftRight, hshift, Nat.mod_eq_of_lt hk, Nat.shiftRight_eq_div_pow]

/-- The upper bits of the first byte tell how many bytes there are. -/
theorem ofLead?_eq_bits (lead : UInt8) :
    Width.ofLead? lead =
      if lead &&& 0x80 = 0 then some .one else if lead &&& 0xC0 = 0x80 then some .two
      else if lead &&& 0xE0 = 0xC0 then some .four else none := by
  have hall : ∀ n : Fin 256, Width.ofLead? (UInt8.ofFin n) =
      if UInt8.ofFin n &&& 0x80 = 0 then some .one
      else if UInt8.ofFin n &&& 0xC0 = 0x80 then some .two
      else if UInt8.ofFin n &&& 0xE0 = 0xC0 then some .four else none := by decide +kernel
  exact hall lead.toFin

/-! ## Reading -/

def twoBytes (lead second : UInt8) : UInt32 :=
  (lead.toUInt32 &&& 0x3F) <<< 8 ||| second.toUInt32

def fourBytes (lead second third fourth : UInt8) : UInt32 :=
  (lead.toUInt32 &&& 0x1F) <<< 24 ||| second.toUInt32 <<< 16 ||| third.toUInt32 <<< 8 |||
    fourth.toUInt32

theorem toNat_twoBytes (lead second : UInt8) :
    (twoBytes lead second).toNat = (ofTwoBytes lead second).value := by
  have hmask : (lead.toUInt32 &&& 0x3F).toNat = lead.toNat % 2 ^ 6 := toNat_and 6 rfl
  have hlead : ((lead.toUInt32 &&& 0x3F) <<< 8).toNat = 2 ^ 8 * (lead.toNat % 2 ^ 6) := by
    rw [toNat_shiftLeft 8 rfl (by omega) (by rw [hmask]; omega), hmask]
  have hsecond : second.toUInt32.toNat < 2 ^ 8 := second.toNat_lt
  rw [twoBytes, toNat_or 8 _ hlead hsecond, hlead, UInt8.toNat_toUInt32]
  show 2 ^ 8 * (lead.toNat % 2 ^ 6) + second.toNat = lead.toNat % 0x40 * 0x100 + second.toNat
  omega

/-- The bytes are joined from the front on, so what is already joined is a multiple of the place of
the next byte. -/
theorem toNat_fourBytes (lead second third fourth : UInt8) :
    (fourBytes lead second third fourth).toNat = (ofFourBytes lead second third fourth).value := by
  have hsecond : second.toNat < 2 ^ 8 := second.toNat_lt
  have hthird : third.toNat < 2 ^ 8 := third.toNat_lt
  have hfourth : fourth.toUInt32.toNat < 2 ^ 8 := fourth.toNat_lt
  have hmask : (lead.toUInt32 &&& 0x1F).toNat = lead.toNat % 2 ^ 5 := toNat_and 5 rfl
  have hlead : ((lead.toUInt32 &&& 0x1F) <<< 24).toNat = 2 ^ 24 * (lead.toNat % 2 ^ 5) := by
    rw [toNat_shiftLeft 24 rfl (by omega) (by rw [hmask]; omega), hmask]
  have hsecond' : (second.toUInt32 <<< 16).toNat = 2 ^ 16 * second.toNat :=
    toNat_shiftLeft 16 rfl (by omega) (by rw [UInt8.toNat_toUInt32]; omega)
  have hthird' : (third.toUInt32 <<< 8).toNat = 2 ^ 8 * third.toNat :=
    toNat_shiftLeft 8 rfl (by omega) (by rw [UInt8.toNat_toUInt32]; omega)
  have htwo : ((lead.toUInt32 &&& 0x1F) <<< 24 ||| second.toUInt32 <<< 16).toNat =
      2 ^ 16 * (2 ^ 8 * (lead.toNat % 2 ^ 5) + second.toNat) := by
    rw [toNat_or 24 _ hlead (by rw [hsecond']; omega)]
    omega
  have hthree : ((lead.toUInt32 &&& 0x1F) <<< 24 ||| second.toUInt32 <<< 16 |||
      third.toUInt32 <<< 8).toNat =
        2 ^ 8 * (2 ^ 16 * (lead.toNat % 2 ^ 5) + 2 ^ 8 * second.toNat + third.toNat) := by
    rw [toNat_or 16 _ htwo (by rw [hthird']; omega)]
    omega
  rw [fourBytes, toNat_or 8 _ hthree hfourth, hthree]
  show _ = lead.toNat % 0x20 * 0x1000000 + second.toNat * 0x10000 + third.toNat * 0x100 +
    fourth.toNat
  rw [UInt8.toNat_toUInt32]
  omega

theorem toNat_toUInt32_of_one {lead : UInt8} (h : lead &&& 0x80 = 0) :
    lead.toUInt32.toNat = (ofByte lead).value := by
  have hone : Width.ofLead? lead = some .one := by rw [ofLead?_eq_bits, if_pos h]
  have hlead : lead.toNat < 0x80 := by
    rw [ofLead?_eq] at hone
    grind
  rw [UInt8.toNat_toUInt32]
  exact (Nat.mod_eq_of_lt hlead).symm

/-- The sign bits that are missing in front of a negative number of so many bytes. -/
def signBits : Nat → UInt32
  | 1 => 0xFFFFFFC0
  | 2 => 0xFFFFE000
  | _ => 0xF0000000

/-- Turns back a number that was rotated and stored in so many bytes. -/
def unrotated (word : UInt32) (used : Nat) : Int32 :=
  let value := word >>> 1
  (if word &&& 1 = 0 then value else value ||| signBits used).toInt32

/-- In front of the bits of a width, the sign bits count for `2 ^ 32` less half the values of the
width. -/
theorem toNat_or_signBits (width : Width) {word : UInt32} (h : word.toNat < width.half) :
    (word ||| signBits width.size).toNat = word.toNat + (2 ^ 32 - width.half) := by
  rw [UInt32.or_comm, Nat.add_comm]
  cases width with
  | one => exact toNat_or 6 0x3FFFFFF rfl h
  | two => exact toNat_or 13 0x7FFFF rfl h
  | four => exact toNat_or 28 0xF rfl h

/-- Turning back the bits of an integer gives the signed number that they stand for. -/
theorem toInt_unrotated {stored : Compressed} {word : UInt32} (hword : word.toNat = stored.value) :
    (unrotated word stored.width.size).toInt = stored.signed := by
  have hvalue := stored.value_lt
  rw [← stored.width.two_mul_half] at hvalue
  have hshift : (word >>> 1).toNat = stored.value / 2 := by
    rw [toNat_shiftRight 1 rfl (by omega), hword]
    rfl
  have hodd : word &&& 1 = 0 ↔ stored.value % 2 = 0 := by
    rw [← UInt32.toNat_inj, toNat_and 1 rfl, hword]
    rfl
  have htoInt (bits : UInt32) : bits.toInt32.toInt = (bits.toNat : Int).bmod (2 ^ 32) :=
    BitVec.toInt_eq_toNat_bmod bits.toBitVec
  have hhalf : stored.width.half ≤ 2 ^ 28 := by cases stored.width <;> decide
  rw [unrotated, signed, htoInt]
  by_cases heven : stored.value % 2 = 0
  · rw [if_pos (hodd.2 heven), if_pos heven, hshift, Int.bmod_eq_of_le (by omega) (by omega)]
  · rw [if_neg (mt hodd.1 heven), if_neg heven, toNat_or_signBits _ (by omega), hshift]
    have hbelow : ((stored.value / 2 + (2 ^ 32 - stored.width.half) : Nat) : Int) =
        (stored.value / 2 : Nat) - stored.width.half + (2 ^ 32 : Nat) := by omega
    rw [hbelow, Int.add_bmod_right, Int.bmod_eq_of_le (by omega) (by omega)]

end Compressed

namespace Cursor

open Compressed

/-- Reads an unsigned integer byte by byte into a machine word. -/
def readWord : Reading UInt32 := do
  let lead ← readByte
  if lead &&& 0x80 = 0 then
    return lead.toUInt32
  else if lead &&& 0xC0 = 0x80 then
    return twoBytes lead (← readByte)
  else if lead &&& 0xE0 = 0xC0 then
    return fourBytes lead (← readByte) (← readByte) (← readByte)
  else
    throw (.malformed (.leadByte lead))

/-- Reads a signed integer into a machine word. Its sign bits depend on how far the cursor moved. -/
def readSignedWord : Reading Int32 := do
  let start ← get
  let word ← readWord
  let behind ← get
  return unrotated word (behind.pos - start.pos)

theorem map_apply {α β : Type} (f : α → β) (reading : Reading α) (cursor : Cursor) :
    (f <$> reading) cursor = (reading cursor).map (·.map f) id := by
  rcases hread : reading cursor with ⟨result, next⟩
  cases result with
  | error e => exact bind_of_error hread fun value => pure (f value)
  | ok value => exact bind_of_ok hread fun value => pure (f value)

/-- Both look at the bytes in the same order, and stop at the first that is missing. -/
theorem map_readWord : UInt32.toNat <$> readWord = Compressed.value <$> readByBytes := by
  rw [readWord, readByBytes, map_bind, map_bind]
  refine bind_congr fun lead => ?_
  rw [ofLead?_eq_bits]
  split
  · rename_i hone
    simp only [readTail, map_pure, toNat_toUInt32_of_one hone]
  · split
    · simp only [readTail, map_bind, map_pure, toNat_twoBytes]
    · split
      · simp only [readTail, map_bind, map_pure, toNat_fourBytes]
      · rfl

theorem readWord_eq (cursor : Cursor) :
    (readWord cursor).map (·.map UInt32.toNat) id =
      cursor.readCompressed.map (·.map Compressed.value) id := by
  rw [← map_apply, map_readWord, map_apply, readByBytes_eq]

/-- A signed integer is turned back in the width in which it is stored, since the cursor has moved
past the bytes of this width. -/
theorem readSignedWord_eq (cursor : Cursor) :
    (readSignedWord cursor).map (·.map Int32.toInt) id =
      cursor.readCompressed.map (·.map Compressed.signed) id := by
  have hwords := readWord_eq cursor
  have hget (cursor : Cursor) : (get : Reading Cursor) cursor = (.ok cursor, cursor) := rfl
  rw [readSignedWord, bind_of_ok (hget cursor)]
  rcases hread : cursor.readCompressed with ⟨result, next⟩
  rcases hfound : readWord cursor with ⟨found, behind⟩
  rw [hread, hfound] at hwords
  obtain ⟨hvalue, rfl⟩ := Prod.mk.inj hwords
  cases result with
  | error e =>
    obtain rfl : found = .error e := map_eq_error_iff.1 hvalue
    rw [bind_of_error hfound]
    rfl
  | ok stored =>
    obtain ⟨word, rfl, hword⟩ : ∃ word, found = .ok word ∧ word.toNat = stored.value :=
      map_eq_ok_iff.1 hvalue
    have hused : behind.pos - cursor.pos = stored.width.size := by
      obtain ⟨front, rest, rfl, rfl⟩ := exists_between_of_readCompressed hread
      rw [← length_bytes]
      simp [between]
    rw [bind_of_ok hfound, bind_of_ok (hget behind), hused]
    have hsigned := toInt_unrotated hword
    show (Except.ok _, _) = (Except.ok _, _)
    rw [hsigned]
    rfl

end Cursor

namespace Compressed

/-! ## Writing -/

def mask : Width → UInt32
  | .one => 0x7F
  | .two => 0x3FFF
  | .four => 0x1FFFFFFF

/-- The bytes of a word in a width. -/
def pushed (word : UInt32) : Width → Bytes
  | .one => [(word &&& 0x7F).toUInt8]
  | .two => [(0x80 : UInt8) ||| (word >>> 8 &&& 0x3F).toUInt8, word.toUInt8]
  | .four =>
    [(0xC0 : UInt8) ||| (word >>> 24 &&& 0x1F).toUInt8, (word >>> 16).toUInt8, (word >>> 8).toUInt8,
      word.toUInt8]

/-- The bits of a number, rotated left by one. -/
def rotated (n : Int32) : UInt32 :=
  let bits := n.toUInt32
  bits <<< 1 ||| bits >>> 31

/-- The bytes of an unsigned number, in the smallest width that holds it. -/
def writeWord (word : UInt32) : Except DebugError Bytes :=
  if word < 0x80 then .ok (pushed word .one)
  else if word < 0x4000 then .ok (pushed word .two)
  else if word ≤ 0x1FFFFFFF then .ok (pushed word .four)
  else .error (.malformed (.uintTooLarge word.toNat))

/-- The bytes of a signed number, in the smallest width that holds it. -/
def writeSignedWord (n : Int32) : Except DebugError Bytes :=
  if ¬ (-0x10000000 ≤ n ∧ n ≤ 0x0FFFFFFF) then .error (.malformed (.intOutOfRange n.toInt))
  else if -0x40 ≤ n ∧ n < 0x40 then .ok (pushed (rotated n &&& mask .one) .one)
  else if -0x2000 ≤ n ∧ n < 0x2000 then .ok (pushed (rotated n &&& mask .two) .two)
  else .ok (pushed (rotated n &&& mask .four) .four)

theorem ofNat_eq_toUInt8 {word : UInt32} {n : Nat} (h : word.toNat = n) :
    UInt8.ofNat n = word.toUInt8 := by
  rw [← UInt8.toNat_inj, UInt8.toNat_ofNat', UInt32.toNat_toUInt8, h]

/-- The bits that tell the width are put in front of those of the value. -/
theorem ofNat_eq_or_toUInt8 (k a : Nat) {marks : UInt8} {word : UInt32} {n : Nat}
    (hmarks : marks.toNat = 2 ^ k * a) (hword : word.toNat = n) (hn : n < 2 ^ k)
    (hsum : 2 ^ k * a + n < 2 ^ 8) : UInt8.ofNat (2 ^ k * a + n) = marks ||| word.toUInt8 := by
  have hlow : word.toUInt8.toNat = n := by
    rw [UInt32.toNat_toUInt8, hword, Nat.mod_eq_of_lt (by omega)]
  rw [← UInt8.toNat_inj, UInt8.toNat_ofNat', Nat.mod_eq_of_lt hsum, UInt8.toNat_or, hlow, hmarks,
    Nat.two_pow_add_eq_or_of_lt hn]

/-- The bytes of an integer are those of the word with its value. -/
theorem bytes_eq_pushed {stored : Compressed} {word : UInt32} (hword : word.toNat = stored.value) :
    stored.bytes = pushed word stored.width := by
  obtain ⟨width, value, hvalue⟩ := stored
  obtain rfl : word.toNat = value := hword
  cases width with
  | one =>
    have hmask : (word &&& 0x7F).toNat = word.toNat :=
      (toNat_and 7 rfl).trans (Nat.mod_eq_of_lt hvalue)
    exact congrArg (List.cons · []) (ofNat_eq_toUInt8 hmask)
  | two =>
    have hupper : word.toNat / 2 ^ 8 < 2 ^ 6 := Nat.div_lt_of_lt_mul hvalue
    have hlead : (word >>> 8 &&& 0x3F).toNat = word.toNat / 2 ^ 8 := by
      rw [toNat_and 6 rfl, toNat_shiftRight 8 rfl (by omega), Nat.mod_eq_of_lt hupper]
    have hfirst : UInt8.ofNat (0x80 + word.toNat / 2 ^ 8) =
        (0x80 : UInt8) ||| (word >>> 8 &&& 0x3F).toUInt8 :=
      ofNat_eq_or_toUInt8 6 2 rfl hlead hupper (by omega)
    show [UInt8.ofNat (0x80 + word.toNat / 2 ^ 8), UInt8.ofNat word.toNat] = [_, _]
    rw [hfirst, ofNat_eq_toUInt8 rfl]
  | four =>
    have hupper : word.toNat / 2 ^ 24 < 2 ^ 5 := Nat.div_lt_of_lt_mul hvalue
    have hlead : (word >>> 24 &&& 0x1F).toNat = word.toNat / 2 ^ 24 := by
      rw [toNat_and 5 rfl, toNat_shiftRight 24 rfl (by omega), Nat.mod_eq_of_lt hupper]
    have hfirst : UInt8.ofNat (0xC0 + word.toNat / 2 ^ 24) =
        (0xC0 : UInt8) ||| (word >>> 24 &&& 0x1F).toUInt8 :=
      ofNat_eq_or_toUInt8 6 3 rfl hlead (by omega) (by omega)
    have hsecond : UInt8.ofNat (word.toNat / 2 ^ 16) = (word >>> 16).toUInt8 :=
      ofNat_eq_toUInt8 (toNat_shiftRight 16 rfl (by omega))
    have hthird : UInt8.ofNat (word.toNat / 2 ^ 8) = (word >>> 8).toUInt8 :=
      ofNat_eq_toUInt8 (toNat_shiftRight 8 rfl (by omega))
    show [UInt8.ofNat (0xC0 + word.toNat / 2 ^ 24), UInt8.ofNat (word.toNat / 2 ^ 16),
      UInt8.ofNat (word.toNat / 2 ^ 8), UInt8.ofNat word.toNat] = [_, _, _, _]
    rw [hfirst, hsecond, hthird, ofNat_eq_toUInt8 rfl]

/-- The rotation takes the uppermost bit, which is the sign, to the lowest place. -/
theorem toNat_rotated (n : Int32) :
    (rotated n).toNat =
      if 0 ≤ n.toInt then 2 * n.toInt.toNat else 2 * (n.toInt + 2 ^ 31).toNat + 1 := by
  have hbits : n.toUInt32.toNat < 2 ^ 32 := n.toUInt32.toNat_lt
  have htoInt : n.toInt = if 2 * n.toUInt32.toNat < 2 ^ 32 then (n.toUInt32.toNat : Int)
      else n.toUInt32.toNat - (2 ^ 32 : Nat) := BitVec.toInt_eq_toNat_cond n.toBitVec
  have hsign : (n.toUInt32 >>> 31).toNat = n.toUInt32.toNat / 2 ^ 31 :=
    toNat_shiftRight 31 rfl (by omega)
  have hrest : (n.toUInt32 <<< 1).toNat = 2 ^ 1 * (n.toUInt32.toNat % 2 ^ 31) := by
    have hshift : (n.toUInt32 <<< 1).toNat = n.toUInt32.toNat <<< 1 % 2 ^ 32 :=
      UInt32.toNat_shiftLeft _ _
    rw [hshift, Nat.shiftLeft_eq]
    omega
  rw [rotated, toNat_or 1 _ hrest (by omega), hrest, hsign]
  split at htoInt <;> split <;> omega

/-- The mask of a width takes off what is in front of the width. -/
theorem toNat_and_mask (word : UInt32) (width : Width) :
    (word &&& mask width).toNat = word.toNat % width.values := by
  cases width with
  | one => exact toNat_and 7 rfl
  | two => exact toNat_and 14 rfl
  | four => exact toNat_and 29 rfl

theorem toNat_rotated_and_mask {width : Width} {n : Int32} (h : FitsSigned width n.toInt) :
    (rotated n &&& mask width).toNat = signedBits width n.toInt := by
  unfold FitsSigned at h
  rw [toNat_and_mask, toNat_rotated, signedBits]
  by_cases hsign : 0 ≤ n.toInt
  · have hlt : 2 * n.toInt.toNat < width.values := by
      rw [← width.two_mul_half]
      omega
    rw [if_pos hsign, if_pos hsign, Nat.mod_eq_of_lt hlt]
  · rw [if_neg hsign, if_neg hsign]
    cases width with
    | one | two | four =>
      simp only [Width.half, Width.values] at h ⊢
      omega

theorem writeWord_eq (word : UInt32) : writeWord word = (ofNat word.toNat).map bytes := by
  have hin {width : Width} (h : word.toNat < width.values) :
      (ofNatIn width word.toNat h).bytes = pushed word width := bytes_eq_pushed rfl
  have hone : word < 0x80 ↔ word.toNat < Width.one.values := UInt32.lt_iff_toNat_lt
  have htwo : word < 0x4000 ↔ word.toNat < Width.two.values := UInt32.lt_iff_toNat_lt
  have hfour : word ≤ 0x1FFFFFFF ↔ word.toNat < Width.four.values :=
    UInt32.le_iff_toNat_le.trans Nat.lt_succ_iff.symm
  simp only [writeWord, ofNat, hone, htwo, hfour]
  split
  · rw [Except.map, hin]
  · split
    · rw [Except.map, hin]
    · split
      · rw [Except.map, hin]
      · rfl

/-- The width is chosen from the number before it is rotated, and each width has its own mask. -/
theorem writeSignedWord_eq (n : Int32) : writeSignedWord n = (ofInt n.toInt).map bytes := by
  have hin {width : Width} (h : FitsSigned width n.toInt) :
      (ofIntIn width n.toInt h).bytes = pushed (rotated n &&& mask width) width :=
    bytes_eq_pushed (toNat_rotated_and_mask h)
  have hone : -0x40 ≤ n ∧ n < 0x40 ↔ FitsSigned .one n.toInt := by
    rw [Int32.le_iff_toInt_le, Int32.lt_iff_toInt_lt]
    rfl
  have htwo : -0x2000 ≤ n ∧ n < 0x2000 ↔ FitsSigned .two n.toInt := by
    rw [Int32.le_iff_toInt_le, Int32.lt_iff_toInt_lt]
    rfl
  have hfour : -0x10000000 ≤ n ∧ n ≤ 0x0FFFFFFF ↔ FitsSigned .four n.toInt := by
    rw [Int32.le_iff_toInt_le, Int32.le_iff_toInt_le]
    exact and_congr Iff.rfl Int.lt_add_one_iff.symm
  rw [writeSignedWord, ofInt]
  simp only [hone, htwo, hfour]
  by_cases hfits : FitsSigned .four n.toInt
  · rw [if_neg (not_not_intro hfits)]
    split
    · rw [Except.map, hin]
    · split
      · rw [Except.map, hin]
      · rw [Except.map, hin]
  · -- The range is tried first here, and is that of the widest width.
    have hnone : ¬ FitsSigned .one n.toInt ∧ ¬ FitsSigned .two n.toInt := by
      simp only [FitsSigned, Width.half] at hfits ⊢
      omega
    rw [if_pos hfits, dif_neg hnone.1, dif_neg hnone.2, dif_neg hfits]
    rfl

end Compressed

end PortablePdb
