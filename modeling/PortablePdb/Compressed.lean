import PortablePdb.Bytes
import PortablePdb.Error

/-!
# Compressed integers

Metadata stores most integers in one, two or four bytes. The top bits of the first byte tell how
many there are and the other bits hold the value, most significant byte first. A value may be
stored in any width that holds it. A signed integer is stored with its sign in the lowest bit of
the value, so what it means also depends on the width.

* `read_bytes_append`: reading gives back the integer whose bytes come first, and leaves the rest.
* `eq_append_of_read`: what is read is stored in exactly the bytes that reading used up.
* `length_read_lt`: reading uses up at least one byte, whether it succeeds or not.
* `scan_flatMap_bytes`, `flatMap_bytes_of_scan`: a byte string splits into integers in at most one
  way, and `scan` finds it.
-/

namespace PortablePdb

/-- The widths of a compressed integer. -/
inductive Width
  | one
  | two
  | four
  deriving DecidableEq, Repr

namespace Width

def size : Width → Nat
  | one => 1
  | two => 2
  | four => 4

/-- The number of values that an integer of this width can have. -/
def values : Width → Nat
  | one => 0x80
  | two => 0x4000
  | four => 0x20000000

/-- Half the number of values: how many signed integers without a sign this width holds. -/
def half : Width → Nat
  | one => 0x40
  | two => 0x2000
  | four => 0x10000000

/-- One bit of a width is the sign, so half the values are left for the number itself. -/
theorem two_mul_half (width : Width) : 2 * width.half = width.values := by
  cases width <;> rfl

def ofLead? (lead : UInt8) : Option Width :=
  if lead < 0x80 then some one
  else if lead < 0xC0 then some two
  else if lead < 0xE0 then some four
  else none

end Width

/-- A compressed integer as it is stored: its width, and the bits of its value. -/
structure Compressed where
  width : Width
  value : Nat
  value_lt : value < width.values
  deriving DecidableEq

namespace Compressed

/-- Two stored integers are the same if they have the same width and the same value. -/
@[ext] theorem ext {a b : Compressed} (hwidth : a.width = b.width) (hvalue : a.value = b.value) :
    a = b := by
  obtain ⟨_, _, _⟩ := a
  obtain ⟨_, _, _⟩ := b
  simp only at hwidth hvalue
  subst hwidth
  subst hvalue
  rfl

/-- The signed integer that the bits stand for. The lowest bit is the sign; a negative integer is
counted from the least one that the width can hold. -/
def signed (stored : Compressed) : Int :=
  if stored.value % 2 = 0 then (stored.value / 2 : Nat)
  else (stored.value / 2 : Nat) - stored.width.half

def bytes (stored : Compressed) : Bytes :=
  match stored.width with
  | .one => [UInt8.ofNat stored.value]
  | .two => [UInt8.ofNat (0x80 + stored.value / 0x100), UInt8.ofNat stored.value]
  | .four =>
    [UInt8.ofNat (0xC0 + stored.value / 0x1000000), UInt8.ofNat (stored.value / 0x10000),
      UInt8.ofNat (stored.value / 0x100), UInt8.ofNat stored.value]

/-! ## Reading -/

def ofByte (lead : UInt8) : Compressed where
  width := .one
  value := lead.toNat % 0x80
  value_lt := Nat.mod_lt _ (by decide)

def ofTwoBytes (lead second : UInt8) : Compressed where
  width := .two
  value := lead.toNat % 0x40 * 0x100 + second.toNat
  value_lt := by
    have := second.toNat_lt
    simp only [Width.values]
    omega

def ofFourBytes (lead second third fourth : UInt8) : Compressed where
  width := .four
  value := lead.toNat % 0x20 * 0x1000000 + second.toNat * 0x10000 + third.toNat * 0x100
    + fourth.toNat
  value_lt := by
    have := second.toNat_lt
    have := third.toNat_lt
    have := fourth.toNat_lt
    simp only [Width.values]
    omega

/-- Reads the integer at the front of some bytes and gives it with the bytes that follow. A failed
read has used up what it looked at: the first byte alone if no integer begins with it, or all
bytes if the integer is cut off. -/
def read : Bytes → Except DebugError Compressed × Bytes
  | [] => (.error .outOfBounds, [])
  | lead :: rest =>
    match Width.ofLead? lead with
    | none => (.error (.malformed (.leadByte lead)), rest)
    | some .one => (.ok (ofByte lead), rest)
    | some .two =>
      match rest with
      | second :: rest => (.ok (ofTwoBytes lead second), rest)
      | [] => (.error .outOfBounds, [])
    | some .four =>
      match rest with
      | second :: third :: fourth :: rest => (.ok (ofFourBytes lead second third fourth), rest)
      | _ => (.error .outOfBounds, [])

/-- If there is a first byte, reading uses up at least this one, even if no integer begins with it.
-/
theorem length_read_lt (lead : UInt8) (rest : Bytes) :
    (read (lead :: rest)).2.length ≤ rest.length := by
  unfold read
  split
  · simp_all
  · rename_i h
    cases h
    split
    · simp
    · simp
    · split <;> simp
    · split <;> simp
      omega

theorem length_read_le (input : Bytes) : (read input).2.length ≤ input.length := by
  cases input with
  | nil => simp [read]
  | cons lead rest =>
    have := length_read_lt lead rest
    simp only [List.length_cons]
    omega

theorem ofLead?_eq (lead : UInt8) :
    Width.ofLead? lead =
      if lead.toNat < 0x80 then some .one else if lead.toNat < 0xC0 then some .two
      else if lead.toNat < 0xE0 then some .four else none := rfl

private theorem toNat_ofNat_of_lt {n : Nat} (h : n < 0x100) : (UInt8.ofNat n).toNat = n := by
  simp [Nat.mod_eq_of_lt h]

private theorem ofNat_eq_of_mod {n : Nat} {byte : UInt8} (h : n % 0x100 = byte.toNat) :
    UInt8.ofNat n = byte := by
  apply UInt8.toNat_inj.1
  rw [UInt8.toNat_ofNat']
  exact h

/-- An integer is read back from its own bytes, whatever follows them. -/
theorem read_bytes_append (stored : Compressed) (rest : Bytes) :
    read (stored.bytes ++ rest) = (.ok stored, rest) := by
  obtain ⟨width, value, h⟩ := stored
  cases width <;> simp only [Width.values] at h <;>
    simp only [bytes, List.cons_append, List.nil_append, read, ofLead?_eq]
  · rw [toNat_ofNat_of_lt (by omega), if_pos (by omega)]
    have : ofByte (UInt8.ofNat value) = ⟨.one, value, h⟩ := by
      apply Compressed.ext
      · rfl
      · simp only [ofByte, UInt8.toNat_ofNat']
        omega
    simp only [this]
  · rw [toNat_ofNat_of_lt (by omega), if_neg (by omega), if_pos (by omega)]
    have : ofTwoBytes (UInt8.ofNat (0x80 + value / 0x100)) (UInt8.ofNat value) =
        ⟨.two, value, h⟩ := by
      apply Compressed.ext
      · rfl
      · simp only [ofTwoBytes, UInt8.toNat_ofNat']
        omega
    simp only [this]
  · rw [toNat_ofNat_of_lt (by omega), if_neg (by omega), if_neg (by omega), if_pos (by omega)]
    have : ofFourBytes (UInt8.ofNat (0xC0 + value / 0x1000000)) (UInt8.ofNat (value / 0x10000))
        (UInt8.ofNat (value / 0x100)) (UInt8.ofNat value) = ⟨.four, value, h⟩ := by
      apply Compressed.ext
      · rfl
      · simp only [ofFourBytes, UInt8.toNat_ofNat']
        omega
    simp only [this]

private theorem bytes_ofByte {lead : UInt8} (h : lead.toNat < 0x80) :
    (ofByte lead).bytes = [lead] := by
  simp only [bytes, ofByte, List.cons.injEq, and_true]
  exact ofNat_eq_of_mod (by omega)

private theorem bytes_ofTwoBytes {lead second : UInt8} (h : 0x80 ≤ lead.toNat)
    (h' : lead.toNat < 0xC0) : (ofTwoBytes lead second).bytes = [lead, second] := by
  have := second.toNat_lt
  simp only [bytes, ofTwoBytes, List.cons.injEq, and_true]
  exact ⟨ofNat_eq_of_mod (by omega), ofNat_eq_of_mod (by omega)⟩

private theorem bytes_ofFourBytes {lead second third fourth : UInt8} (h : 0xC0 ≤ lead.toNat)
    (h' : lead.toNat < 0xE0) :
    (ofFourBytes lead second third fourth).bytes = [lead, second, third, fourth] := by
  have := second.toNat_lt
  have := third.toNat_lt
  have := fourth.toNat_lt
  simp only [bytes, ofFourBytes, List.cons.injEq, and_true]
  exact ⟨ofNat_eq_of_mod (by omega), ofNat_eq_of_mod (by omega), ofNat_eq_of_mod (by omega),
    ofNat_eq_of_mod (by omega)⟩

/-- What is read is stored in exactly the bytes that reading used up. -/
theorem eq_append_of_read {input rest : Bytes} {stored : Compressed}
    (h : read input = (.ok stored, rest)) : input = stored.bytes ++ rest := by
  cases input with
  | nil => simp [read] at h
  | cons lead tail =>
    simp only [read, ofLead?_eq] at h
    split at h
    · simp at h
    · rename_i hlead
      have : lead.toNat < 0x80 := by grind
      simp only [Prod.mk.injEq, Except.ok.injEq] at h
      obtain ⟨rfl, rfl⟩ := h
      rw [bytes_ofByte this]
      rfl
    · rename_i hlead
      have : 0x80 ≤ lead.toNat ∧ lead.toNat < 0xC0 := by grind
      split at h
      · simp only [Prod.mk.injEq, Except.ok.injEq] at h
        obtain ⟨rfl, rfl⟩ := h
        rw [bytes_ofTwoBytes this.1 this.2]
        rfl
      · simp at h
    · rename_i hlead
      have : 0xC0 ≤ lead.toNat ∧ lead.toNat < 0xE0 := by grind
      split at h
      · simp only [Prod.mk.injEq, Except.ok.injEq] at h
        obtain ⟨rfl, rfl⟩ := h
        rw [bytes_ofFourBytes this.1 this.2]
        rfl
      · simp at h

/-! ## Splitting a byte string into integers -/

/-- The integers that some bytes consist of, up to the end or to the first place where no integer
can be read, together with the reason why none can be read there. -/
def scan (input : Bytes) : List Compressed × Option DebugError :=
  match input with
  | [] => ([], none)
  | lead :: rest =>
    match _hread : read (lead :: rest) with
    | (.error e, _) => ([], some e)
    | (.ok stored, rest') =>
      let (more, stop) := scan rest'
      (stored :: more, stop)
termination_by input.length
decreasing_by
  have := length_read_lt lead rest
  rw [_hread] at this
  simp only [List.length_cons] at *
  omega

@[simp] theorem scan_nil : scan [] = ([], none) := by simp [scan]

theorem bytes_ne_nil (stored : Compressed) : stored.bytes ≠ [] := by
  unfold bytes
  split <;> simp

theorem scan_bytes_append (stored : Compressed) (rest : Bytes) :
    scan (stored.bytes ++ rest) = (stored :: (scan rest).1, (scan rest).2) := by
  have hread := read_bytes_append stored rest
  cases hinput : stored.bytes ++ rest with
  | nil => simp [bytes_ne_nil] at hinput
  | cons lead tail =>
    rw [hinput] at hread
    rw [scan]
    split
    · rename_i h
      rw [hread] at h
      simp at h
    · rename_i h
      rw [hread] at h
      simp only [Prod.mk.injEq, Except.ok.injEq] at h
      obtain ⟨rfl, rfl⟩ := h
      rfl

/-- Integers that are stored one after the other are all found again. -/
theorem scan_flatMap_bytes (all : List Compressed) : scan (all.flatMap bytes) = (all, none) := by
  induction all with
  | nil => simp
  | cons stored more ih => rw [List.flatMap_cons, scan_bytes_append, ih]

/-- A byte string that splits into integers consists of the bytes of those integers. -/
theorem flatMap_bytes_of_scan {input : Bytes} {all : List Compressed}
    (h : scan input = (all, none)) : all.flatMap bytes = input := by
  fun_induction scan input generalizing all with
  | case1 => simp_all
  | case2 => simp at h
  | case3 lead rest stored rest' hread more stop hscan ih =>
    simp only [Prod.mk.injEq] at h
    obtain ⟨rfl, rfl⟩ := h
    rw [List.flatMap_cons, ih hscan, ← eq_append_of_read hread]

end Compressed

end PortablePdb
