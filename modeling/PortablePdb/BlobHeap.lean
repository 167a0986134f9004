import PortablePdb.Bytes
import PortablePdb.Error

/-!
# The blob heap

A heap keeps byte strings under the indices 1, 2, 3, … in the order in which they were added.
Index 0 stands for the empty byte string, which is never kept. An index has 32 bits. A heap goes on
growing when they are used up, but all that is added from then on gets the last index, under which
something else is found.

* `toNat_fst_add`: which index is given.
* `get?_add`: as long as there are indices left, what was added is found under the one it got.
* `get?_add_of_get?`: adding never changes what an earlier index finds.
* `isSome_get?`, `get_eq_error_iff`: which indices find something.
-/

namespace PortablePdb

/-- Byte strings kept under indices. -/
structure BlobHeap where
  blobs : Array Bytes
  ne_nil : ∀ blob ∈ blobs, blob ≠ []

namespace BlobHeap

def empty : BlobHeap := ⟨#[], by simp⟩

def size (heap : BlobHeap) : Nat := heap.blobs.size

/-- Keeps some bytes, and gives the index that they get. -/
def add (heap : BlobHeap) (data : Bytes) : UInt32 × BlobHeap :=
  if h : data = [] then (0, heap)
  else (UInt32.ofNatClamp (heap.size + 1), ⟨heap.blobs.push data, by
    intro blob hblob
    rcases Array.mem_push.1 hblob with hold | rfl
    · exact heap.ne_nil blob hold
    · exact h⟩)

/-- The byte string under an index, if the heap goes so far. -/
def get? (heap : BlobHeap) : Nat → Option Bytes
  | 0 => some []
  | index + 1 => heap.blobs[index]?

/-- The byte string under an index, or an error if the heap does not go so far. -/
def get (heap : BlobHeap) (index : Nat) : Except DebugError Bytes :=
  match heap.get? index with
  | some data => .ok data
  | none => .error .outOfBounds

@[simp] theorem get?_zero (heap : BlobHeap) : heap.get? 0 = some [] := rfl

/-- Numbers without a 32-bit word of their own share the last one. -/
theorem toNat_ofNatClamp (n : Nat) : (UInt32.ofNatClamp n).toNat = min n 0xFFFFFFFF := by
  rcases Nat.lt_or_ge n UInt32.size with hlt | hle
  · have hmin : n ≤ 0xFFFFFFFF := Nat.le_of_lt_succ hlt
    rw [UInt32.toNat_ofNatClamp_of_lt hlt, Nat.min_eq_left hmin]
  · have hmin : 0xFFFFFFFF ≤ n := Nat.le_of_succ_le hle
    rw [UInt32.toNat_ofNatClamp_of_le hle, Nat.min_eq_right hmin]
    rfl

/-- Empty bytes get the index 0, and others the next index or, if there is none, the last one. -/
theorem toNat_fst_add (heap : BlobHeap) (data : Bytes) :
    (heap.add data).1.toNat = if data = [] then 0 else min (heap.size + 1) 0xFFFFFFFF := by
  unfold add
  split
  · rfl
  · exact toNat_ofNatClamp _

/-- Where there is a next index, it is the one that is given. -/
theorem toNat_fst_add_of_next {heap : BlobHeap} {data : Bytes}
    (h : data ≠ [] → heap.size < 0xFFFFFFFF) :
    (heap.add data).1.toNat = if data = [] then 0 else heap.size + 1 := by
  rw [toNat_fst_add]
  split
  · rfl
  · rename_i hdata
    exact Nat.min_eq_left (h hdata)

/-- An index below the last one is not shared, so there was a next index. -/
theorem size_lt_of_index_lt {heap : BlobHeap} {data : Bytes} (hdata : data ≠ [])
    (h : (heap.add data).1.toNat < 0xFFFFFFFF) : heap.size < 0xFFFFFFFF := by
  rw [toNat_fst_add, if_neg hdata] at h
  omega

/-- As long as there is a next index, what was added is found under the index that was given. -/
theorem get?_add {heap : BlobHeap} {data : Bytes} (h : data ≠ [] → heap.size < 0xFFFFFFFF) :
    (heap.add data).2.get? (heap.add data).1.toNat = some data := by
  rw [toNat_fst_add_of_next h]
  by_cases hdata : data = []
  · rw [if_pos hdata, hdata, get?]
  · rw [if_neg hdata]
    simp [add, hdata, get?, size]

/-- Adding never changes what an index finds. -/
theorem get?_add_of_get? {heap : BlobHeap} {index : Nat} {old : Bytes} (data : Bytes)
    (h : heap.get? index = some old) : (heap.add data).2.get? index = some old := by
  unfold add
  split
  · exact h
  · cases index with
    | zero => exact h
    | succ index =>
      simp only [get?] at h ⊢
      have hlt := (Array.getElem?_eq_some_iff.1 h).1
      rw [Array.getElem?_push_lt hlt, ← h, Array.getElem?_eq_getElem hlt]

/-- A heap grows by one with each byte string that is not empty. -/
theorem size_add (heap : BlobHeap) (data : Bytes) :
    (heap.add data).2.size = heap.size + if data = [] then 0 else 1 := by
  unfold add
  split <;> simp_all [size]

/-- An index that was given is never beyond the end of the heap. -/
theorem add_le_size (heap : BlobHeap) (data : Bytes) :
    (heap.add data).1.toNat ≤ (heap.add data).2.size := by
  rw [toNat_fst_add, size_add]
  split <;> omega

/-- Exactly the indices up to the size find something. -/
theorem isSome_get? (heap : BlobHeap) (index : Nat) :
    (heap.get? index).isSome = true ↔ index ≤ heap.size := by
  cases index with
  | zero => simp
  | succ index =>
    rw [get?, Option.isSome_iff_ne_none, Ne, Array.getElem?_eq_none_iff, Nat.not_le]
    exact Iff.rfl

theorem get?_eq_none_iff {heap : BlobHeap} {index : Nat} :
    heap.get? index = none ↔ heap.size < index := by
  rw [← Option.not_isSome_iff_eq_none, isSome_get?, Nat.not_le]

theorem get_eq_ok_iff {heap : BlobHeap} {index : Nat} {data : Bytes} :
    heap.get index = .ok data ↔ heap.get? index = some data := by
  unfold get
  cases heap.get? index <;> simp

/-- A lookup only fails beyond the end of the heap. -/
theorem get_eq_error_iff {heap : BlobHeap} {index : Nat} {e : DebugError} :
    heap.get index = .error e ↔ e = .outOfBounds ∧ heap.size < index := by
  rw [← get?_eq_none_iff]
  unfold get
  cases heap.get? index <;> simp [eq_comm]

end BlobHeap

end PortablePdb
