import Mathlib.Data.Nat.Bitwise
import PortablePdb.CustomDebug.DynamicFlags

/-!
# Flags as the bits of a blob

Flags are read from one byte after the other to the end of a blob, whatever stands before it
(`readFlags_between`). Flag `8 * j + b` is bit `b` of byte `j` (`getElem?_decode`). A number is
known from its bits, so eight flags give back the byte that they come from (`ofBits_bits`), and any eight
flags come from a byte (`bits_ofNat_ofBits`). What holds of eight flags holds of eights of flags, by
induction on the bytes: `pack_decode`, `decode_pack`.

* `flags_lossless`: flags and blobs stand for each other, if the flags come in eights.
-/

namespace PortablePdb.DynamicFlags

open Cursor (between)

/-! ## Reading -/

theorem readFlags_nil (front : Bytes) :
    readFlags (between front []) = (.ok [], between front []) := by
  rw [readFlags, if_neg (Cursor.not_hasMore_between_nil front)]

theorem readFlags_of_ok {cursor next : Cursor} {byte : Int}
    (h : cursor.readInt ⟨1, false⟩ = (.ok byte, next)) :
    readFlags cursor =
      (readFlags next).map (·.map (bits (UInt8.ofNat byte.toNat) ++ ·)) id := by
  have hless : next.remaining < cursor.remaining :=
    Nat.lt_of_succ_le (Nat.le_of_eq (Cursor.remaining_of_readInt h))
  have hmore : cursor.hasMore = true := Cursor.hasMore_of_remaining_lt hless
  rw [readFlags, if_pos hmore]
  split
  · rename_i hbyte
    rw [h] at hbyte
    cases hbyte
  · rename_i hbyte
    rw [h] at hbyte
    cases hbyte
    rfl

/-- No byte is refused, so reading goes on to the end. -/
theorem readFlags_between (front bytes : Bytes) :
    readFlags (between front bytes) = (.ok (decode bytes), between (front ++ bytes) []) := by
  induction bytes generalizing front with
  | nil => rw [readFlags_nil, List.append_nil]; rfl
  | cons byte more ih =>
    rw [readFlags_of_ok (Cursor.readByte_between front byte more), ih]
    simp [Except.map, decode]

theorem readFlags_start (data : Bytes) :
    readFlags (.start data) = (.ok (decode data), between data []) :=
  readFlags_between [] data

/-! ## The flags of a byte -/

theorem getElem?_bits (byte : UInt8) {b : Nat} (h : b < 8) :
    (bits byte)[b]? = some (byte.toNat.testBit b) := by
  simp [bits, h]

/-- The bits of the number that flags stand for are these flags. -/
theorem testBit_ofBits (flags : List Bool) (b : Nat) :
    (ofBits flags).testBit b = flags[b]?.getD false := by
  induction flags generalizing b with
  | nil => simp [ofBits]
  | cons flag more ih =>
    cases b with
    | zero => cases flag <;> simp [ofBits]
    | succ b =>
      have hhalf : ofBits (flag :: more) / 2 = ofBits more := by
        cases flag <;> simp [ofBits]; omega
      rw [Nat.testBit_succ, hhalf, ih, List.getElem?_cons_succ]

theorem ofBits_lt (flags : List Bool) : ofBits flags < 2 ^ flags.length := by
  induction flags with
  | nil => exact Nat.one_pos
  | cons flag more ih =>
    have := flag.toNat_le
    rw [ofBits, List.length_cons, Nat.pow_succ]
    omega

theorem ofBits_bits (byte : UInt8) : ofBits (bits byte) = byte.toNat := by
  apply Nat.eq_of_testBit_eq
  intro b
  rw [testBit_ofBits]
  rcases Nat.lt_or_ge b 8 with hlt | hge
  · rw [getElem?_bits byte hlt, Option.getD_some]
  · have hhigh : byte.toNat.testBit b = false := by
      apply Nat.testBit_lt_two_pow
      exact Nat.lt_of_lt_of_le byte.toNat_lt (Nat.pow_le_pow_right (by decide) hge)
    rw [List.getElem?_eq_none (by rwa [length_bits]), Option.getD_none, hhigh]

theorem bits_ofNat_ofBits {flags : List Bool} (h : flags.length = 8) :
    bits (UInt8.ofNat (ofBits flags)) = flags := by
  have hlt : ofBits flags < 2 ^ 8 := h ▸ ofBits_lt flags
  apply List.ext_getElem?
  intro b
  rcases Nat.lt_or_ge b 8 with hb | hb
  · rw [getElem?_bits _ hb, UInt8.toNat_ofNat', Nat.mod_eq_of_lt hlt, testBit_ofBits,
      List.getElem?_eq_getElem (h ▸ hb), Option.getD_some]
  · rw [List.getElem?_eq_none (by rwa [length_bits]), List.getElem?_eq_none (by rwa [h])]

/-! ## The flags of a blob -/

theorem decode_cons (byte : UInt8) (rest : Bytes) :
    decode (byte :: rest) = bits byte ++ decode rest := List.flatMap_cons

/-- Flag `8 * j + b` is bit `b` of byte `j`. -/
theorem getElem?_decode {data : Bytes} {j b : Nat} {byte : UInt8} (hbyte : data[j]? = some byte)
    (hb : b < 8) : (decode data)[8 * j + b]? = some (byte.toNat.testBit b) := by
  induction data generalizing j with
  | nil => cases hbyte
  | cons first rest ih =>
    have hlength := length_bits first
    rw [decode_cons]
    cases j with
    | zero =>
      obtain rfl : first = byte := Option.some.inj hbyte
      rw [Nat.mul_zero, Nat.zero_add, List.getElem?_append_left (by omega), getElem?_bits first hb]
    | succ j =>
      have hbehind : 8 * (j + 1) + b - (bits first).length = 8 * j + b := by omega
      rw [List.getElem?_append_right (by omega), hbehind]
      exact ih hbyte

theorem pack_append {front : List Bool} (h : front.length = 8) (more : List Bool) :
    pack (front ++ more) = UInt8.ofNat (ofBits front) :: pack more := by
  match front, h with
  | [_, _, _, _, _, _, _, _], _ => rfl

/-- No byte is lost. -/
theorem pack_decode (data : Bytes) : pack (decode data) = data := by
  induction data with
  | nil => rfl
  | cons byte rest ih =>
    rw [decode_cons, pack_append (length_bits byte), ofBits_bits, UInt8.ofNat_toNat, ih]

/-- The induction is on the number of bytes that the flags fill. -/
theorem decode_pack {flags : List Bool} (h : 8 ∣ flags.length) : decode (pack flags) = flags := by
  obtain ⟨count, hcount⟩ := h
  induction count generalizing flags with
  | zero =>
    obtain rfl := List.length_eq_zero_iff.1 hcount
    rfl
  | succ count ih =>
    obtain ⟨front, more, rfl, hfront⟩ :
        ∃ front more, flags = front ++ more ∧ front.length = 8 :=
      ⟨flags.take 8, flags.drop 8, (List.take_append_drop 8 flags).symm, by
        rw [List.length_take]; omega⟩
    have hmore : more.length = 8 * count := by
      rw [List.length_append] at hcount
      omega
    rw [pack_append hfront, decode_cons, bits_ofNat_ofBits hfront, ih hmore]

/-- What the flags of a blob are. -/
structure BitsOf (data : Bytes) (flags : List Bool) : Prop where
  /-- They can always be read, to the end of the blob. -/
  read : readFlags (.start data) = (.ok flags, between data [])
  /-- There are eight for each byte. -/
  length_eq : flags.length = 8 * data.length
  /-- They are the bits of the bytes, the lowest bit of each byte first. -/
  bit : ∀ j byte, data[j]? = some byte → ∀ b < 8, flags[8 * j + b]? = some (byte.toNat.testBit b)
  /-- They give back the blob. -/
  packed : pack flags = data

theorem bitsOf_decode (data : Bytes) : BitsOf data (decode data) where
  read := readFlags_start data
  length_eq := length_decode data
  bit _ _ hbyte _ hb := getElem?_decode hbyte hb
  packed := pack_decode data

/-- Flags come from a blob if they fill its bytes, and then from only one. -/
theorem existsUnique_blob_iff (flags : List Bool) :
    (∃! data, (readFlags (.start data)).1 = .ok flags) ↔ 8 ∣ flags.length := by
  simp only [readFlags_start, Except.ok.injEq]
  constructor
  · rintro ⟨data, rfl, -⟩
    exact ⟨data.length, length_decode data⟩
  · intro h
    refine ⟨pack flags, decode_pack h, ?_⟩
    rintro data rfl
    exact (pack_decode data).symm

/-- **Flags lose nothing**: every blob has its flags, and flags in eights have one blob. -/
theorem flags_lossless :
    (∀ data, BitsOf data (decode data)) ∧
      (∀ flags : List Bool,
        (∃! data, (readFlags (.start data)).1 = .ok flags) ↔ 8 ∣ flags.length) ∧
      ∀ first second, decode (first ++ second) = decode first ++ decode second :=
  ⟨bitsOf_decode, existsUnique_blob_iff, decode_append⟩

/-- Two bytes: the first flag is the lowest bit of the first one. -/
example : decode [0x05, 0x80] = [true, false, true, false, false, false, false, false,
    false, false, false, false, false, false, false, true] := by decide

end PortablePdb.DynamicFlags
