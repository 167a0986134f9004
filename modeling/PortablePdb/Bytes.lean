/-!
# Bytes

Byte strings, and numbers stored in them with the least significant byte first.

* `littleEndian_lt`: a number in `k` bytes is below `byteValues k`.
* `littleEndian_ofNat`: a number that fits into `k` bytes is read back from them.
-/

namespace PortablePdb

/-- A string of bytes. -/
abbrev Bytes := List UInt8

/-- The number stored in some bytes, least significant byte first. -/
def littleEndian : Bytes → Nat
  | [] => 0
  | byte :: rest => byte.toNat + 256 * littleEndian rest

def byteValues : (size : Nat) → Nat
  | 0 => 1
  | size + 1 => 256 * byteValues size

/-- The signed number stored in some bytes, in two's complement, least significant byte first. -/
def littleEndianSigned (bytes : Bytes) : Int :=
  (littleEndian bytes : Int).bmod (byteValues bytes.length)

/-- The lowest `size` bytes of a number, least significant byte first. -/
def toLittleEndian : (size : Nat) → Nat → Bytes
  | 0, _ => []
  | size + 1, n => UInt8.ofNat n :: toLittleEndian size (n / 256)

/-- The lowest `size` bytes of a number, most significant byte first. -/
def toBigEndian (size n : Nat) : Bytes := (toLittleEndian size n).reverse

theorem littleEndian_lt (bytes : Bytes) : littleEndian bytes < byteValues bytes.length := by
  induction bytes with
  | nil => exact Nat.one_pos
  | cons byte rest ih =>
    have := byte.toNat_lt
    simp only [littleEndian, List.length_cons, byteValues]
    omega

@[simp] theorem length_toLittleEndian (size n : Nat) : (toLittleEndian size n).length = size := by
  induction size generalizing n with
  | zero => rfl
  | succ size ih => simp [toLittleEndian, ih]

/-- A number that fits into some bytes is read back from them. -/
theorem littleEndian_ofNat (size n : Nat) (h : n < byteValues size) :
    littleEndian (toLittleEndian size n) = n := by
  induction size generalizing n with
  | zero =>
    simp only [byteValues] at h
    simp only [toLittleEndian, littleEndian]
    omega
  | succ size ih =>
    simp only [byteValues] at h
    simp only [toLittleEndian, littleEndian, ih (n / 256) (by omega), UInt8.toNat_ofNat']
    omega

/-- Conversely, bytes are those of the number that they stand for. -/
theorem toLittleEndian_littleEndian (bytes : Bytes) :
    toLittleEndian bytes.length (littleEndian bytes) = bytes := by
  induction bytes with
  | nil => rfl
  | cons byte rest ih =>
    have := byte.toNat_lt
    have hdiv : (byte.toNat + 256 * littleEndian rest) / 256 = littleEndian rest := by omega
    have hmod : UInt8.ofNat (byte.toNat + 256 * littleEndian rest) = byte := by
      apply UInt8.toNat_inj.1
      rw [UInt8.toNat_ofNat']
      omega
    simp [toLittleEndian, littleEndian, hdiv, hmod, ih]

end PortablePdb
