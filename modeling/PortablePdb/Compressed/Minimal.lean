import PortablePdb.Compressed

/-!
# The narrowest stored form

Writing a number stores it in the smallest width that holds it, and appends its bytes to a buffer.

* `value_of_ofNat`, `signed_of_ofInt`: the stored form means the number that was written.
* `ofNat_eq_ok_iff`, `ofInt_eq_ok_iff`: which numbers have a stored form.
* `write`, `writeAll`: writing appends to a buffer, or leaves it as it is.
-/

namespace PortablePdb.Compressed

/-- The bits that a signed number has in a width: twice the number, or, for a negative number,
twice its distance from the least number of that width, and one more. -/
def signedBits (width : Width) (n : Int) : Nat :=
  if 0 ≤ n then 2 * n.toNat else 2 * (n + width.half).toNat + 1

/-- A signed number fits into a width if it is between the least and the greatest number that the
width has for a sign and the other bits. -/
def FitsSigned (width : Width) (n : Int) : Prop := -width.half ≤ n ∧ n < width.half

instance (width : Width) (n : Int) : Decidable (FitsSigned width n) :=
  inferInstanceAs (Decidable (_ ∧ _))

def ofNatIn (width : Width) (n : Nat) (h : n < width.values) : Compressed := ⟨width, n, h⟩

theorem signedBits_lt {width : Width} {n : Int} (h : FitsSigned width n) :
    signedBits width n < width.values := by
  rw [← width.two_mul_half]
  unfold FitsSigned at h
  unfold signedBits
  split <;> omega

def ofIntIn (width : Width) (n : Int) (h : FitsSigned width n) : Compressed :=
  ⟨width, signedBits width n, signedBits_lt h⟩

def ofNat (n : Nat) : Except DebugError Compressed :=
  if h : n < Width.one.values then .ok (ofNatIn .one n h)
  else if h : n < Width.two.values then .ok (ofNatIn .two n h)
  else if h : n < Width.four.values then .ok (ofNatIn .four n h)
  else .error (.malformed (.uintTooLarge n))

def ofInt (n : Int) : Except DebugError Compressed :=
  if h : FitsSigned .one n then .ok (ofIntIn .one n h)
  else if h : FitsSigned .two n then .ok (ofIntIn .two n h)
  else if h : FitsSigned .four n then .ok (ofIntIn .four n h)
  else .error (.malformed (.intOutOfRange n))

/-- The bits of a number are read as this number, in the width that they were made for. -/
theorem signed_ofIntIn {width : Width} {n : Int} (h : FitsSigned width n) :
    (ofIntIn width n h).signed = n := by
  unfold FitsSigned at h
  simp only [signed, ofIntIn, signedBits]
  split <;> split <;> omega

theorem value_of_ofNat {n : Nat} {stored : Compressed} (h : ofNat n = .ok stored) :
    stored.value = n := by
  unfold ofNat at h
  grind [ofNatIn]

theorem signed_of_ofInt {n : Int} {stored : Compressed} (h : ofInt n = .ok stored) :
    stored.signed = n := by
  unfold ofInt at h
  split at h
  · cases h; exact signed_ofIntIn _
  split at h
  · cases h; exact signed_ofIntIn _
  split at h
  · cases h; exact signed_ofIntIn _
  · cases h

/-- The numbers up to 29 bits have a stored form, and no others. -/
theorem ofNat_eq_ok_iff {n : Nat} : (∃ stored, ofNat n = .ok stored) ↔ n ≤ 0x1FFFFFFF := by
  unfold ofNat
  constructor
  · rintro ⟨stored, h⟩
    grind [Width.values]
  · intro h
    split
    · exact ⟨_, rfl⟩
    split
    · exact ⟨_, rfl⟩
    split
    · exact ⟨_, rfl⟩
    · simp only [Width.values] at *
      omega

/-- So have the signed numbers up to 29 bits, one of which is the sign. -/
theorem ofInt_eq_ok_iff {n : Int} :
    (∃ stored, ofInt n = .ok stored) ↔ -0x10000000 ≤ n ∧ n ≤ 0x0FFFFFFF := by
  have hone : FitsSigned .one n ↔ -0x40 ≤ n ∧ n < 0x40 := Iff.rfl
  have htwo : FitsSigned .two n ↔ -0x2000 ≤ n ∧ n < 0x2000 := Iff.rfl
  have hfour : FitsSigned .four n ↔ -0x10000000 ≤ n ∧ n < 0x10000000 := Iff.rfl
  unfold ofInt
  constructor
  · rintro ⟨stored, h⟩
    split at h
    · grind
    split at h
    · grind
    split at h
    · grind
    · cases h
  · intro h
    split
    · exact ⟨_, rfl⟩
    split
    · exact ⟨_, rfl⟩
    split
    · exact ⟨_, rfl⟩
    · grind

/-! ## Writing to a buffer -/

/-- A number to be written, as an unsigned or as a signed integer. -/
inductive Number
  | unsigned (n : Nat)
  | signed (n : Int)
  deriving DecidableEq

def ofNumber : Number → Except DebugError Compressed
  | .unsigned n => ofNat n
  | .signed n => ofInt n

/-- The number that a stored integer means, read in the same way as `number` is written. -/
def readAs (stored : Compressed) : Number → Number
  | .unsigned _ => .unsigned stored.value
  | .signed _ => .signed stored.signed

/-- Appends a number to a buffer and tells which bytes were added. A number that has no stored
form leaves the buffer as it is. -/
def write (number : Number) (buffer : Bytes) : Except DebugError Bytes × Bytes :=
  match ofNumber number with
  | .ok stored => (.ok stored.bytes, buffer ++ stored.bytes)
  | .error e => (.error e, buffer)

/-- Appends several numbers, one after the other, and gives the outcome of each with the buffer
that it leaves. -/
def writeAll : List Number → Bytes → List (Except DebugError Bytes × Bytes)
  | [], _ => []
  | number :: more, buffer =>
    let result := write number buffer
    result :: writeAll more result.2

def written (numbers : List Number) (buffer : Bytes) : Bytes :=
  numbers.foldl (fun buffer number => (write number buffer).2) buffer

/-- What was written is read back as the number it was written for. -/
theorem readAs_of_ofNumber {number : Number} {stored : Compressed}
    (h : ofNumber number = .ok stored) : stored.readAs number = number := by
  cases number with
  | unsigned n => simp [readAs, value_of_ofNat h]
  | signed n => simp [readAs, signed_of_ofInt h]

end PortablePdb.Compressed
