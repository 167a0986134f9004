import PortablePdb.Cursor

/-!
# Dynamic flags

Flags for the parts of a type, eight to a byte, the lowest bit first.

* `length_decode`: every byte holds eight flags.
* `decode_append`: flags are read byte by byte.
* `readFlags`: reads flags from a position on.
-/

namespace PortablePdb.DynamicFlags

/-- The bits of a byte, lowest first. -/
def bits (byte : UInt8) : List Bool := (List.range 8).map byte.toNat.testBit

def decode (bytes : Bytes) : List Bool := bytes.flatMap bits

/-- Reads the flags of one byte after the other, to the end. -/
def readFlags (cursor : Cursor) : Except DebugError (List Bool) × Cursor :=
  if cursor.hasMore then
    match _hbyte : cursor.readInt ⟨1, false⟩ with
    | (.error e, next) => (.error e, next)
    | (.ok byte, next) => (readFlags next).map (·.map (bits (UInt8.ofNat byte.toNat) ++ ·)) id
  else (.ok [], cursor)
termination_by cursor.remaining
decreasing_by
  have hremaining : _ + 1 = cursor.remaining := Cursor.remaining_of_readInt _hbyte
  omega

/-- The number that bits stand for, lowest bit first. -/
def ofBits : List Bool → Nat
  | [] => 0
  | bit :: more => bit.toNat + 2 * ofBits more

/-- The bytes of some flags. Flags that do not fill a byte are dropped. -/
def pack : List Bool → Bytes
  | b0 :: b1 :: b2 :: b3 :: b4 :: b5 :: b6 :: b7 :: more =>
    UInt8.ofNat (ofBits [b0, b1, b2, b3, b4, b5, b6, b7]) :: pack more
  | _ => []

theorem length_bits (byte : UInt8) : (bits byte).length = 8 := rfl

/-- There are always eight flags to a byte, also where fewer were meant. -/
theorem length_decode (bytes : Bytes) : (decode bytes).length = 8 * bytes.length := by
  induction bytes with
  | nil => rfl
  | cons byte rest ih =>
    simp only [decode, List.flatMap_cons, List.length_append, length_bits,
      List.length_cons] at ih ⊢
    omega

/-- No flag depends on more than one byte. -/
theorem decode_append (first second : Bytes) :
    decode (first ++ second) = decode first ++ decode second := by
  simp [decode]

end PortablePdb.DynamicFlags
