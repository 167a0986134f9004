import Mathlib.Data.List.Forall2
import PortablePdb.Compressed.Minimal

/-!
# Writing numbers that have a stored form

Numbers are written as the bytes of their stored forms, one after the other and behind what the
buffer already holds; those that have none leave no trace (`written_eq`). Which numbers have one is
a matter of their range alone (`exists_stored_unsigned`, `exists_stored_signed`).
-/

namespace PortablePdb.Compressed

/-- The stored forms of some numbers, in order. -/
def Stored (numbers : List Number) (integers : List Compressed) : Prop :=
  List.Forall₂ (fun number stored => ofNumber number = .ok stored) numbers integers

theorem exists_stored_unsigned {n : Nat} (h : n ≤ 0x1FFFFFFF) :
    ∃ stored, ofNumber (.unsigned n) = .ok stored ∧ stored.value = n := by
  obtain ⟨stored, hstored⟩ := ofNat_eq_ok_iff.2 h
  exact ⟨stored, hstored, value_of_ofNat hstored⟩

theorem exists_stored_signed {n : Int} (hlow : -0x10000000 ≤ n) (hhigh : n ≤ 0x0FFFFFFF) :
    ∃ stored, ofNumber (.signed n) = .ok stored ∧ stored.signed = n := by
  obtain ⟨stored, hstored⟩ := ofInt_eq_ok_iff.2 ⟨hlow, hhigh⟩
  exact ⟨stored, hstored, signed_of_ofInt hstored⟩

namespace Stored

theorem nil : Stored [] [] := List.Forall₂.nil

theorem cons {number : Number} {stored : Compressed} {numbers : List Number}
    {integers : List Compressed} (h : ofNumber number = .ok stored)
    (hmore : Stored numbers integers) : Stored (number :: numbers) (stored :: integers) :=
  List.Forall₂.cons h hmore

theorem append {first second : List Number} {front back : List Compressed}
    (hfirst : Stored first front) (hsecond : Stored second back) :
    Stored (first ++ second) (front ++ back) :=
  List.rel_append hfirst hsecond

theorem exists_of_mem {numbers : List Number} {integers : List Compressed}
    (h : Stored numbers integers) :
    ∀ number ∈ numbers, ∃ stored, ofNumber number = .ok stored := by
  induction h with
  | nil => simp
  | @cons number stored numbers integers hstored _ ih =>
    intro other hother
    rcases List.mem_cons.1 hother with rfl | hmore
    · exact ⟨stored, hstored⟩
    · exact ih other hmore

end Stored

/-- The stored forms of the numbers that have one. -/
def storedForms (numbers : List Number) : List Compressed :=
  numbers.filterMap fun number => (ofNumber number).toOption

/-- A buffer only grows, by the stored forms of the numbers that have one. -/
theorem written_eq (numbers : List Number) (buffer : Bytes) :
    written numbers buffer = buffer ++ (storedForms numbers).flatMap bytes := by
  induction numbers generalizing buffer with
  | nil => simp [written, storedForms]
  | cons number more ih =>
    have hmore : written (number :: more) buffer = written more (write number buffer).2 := rfl
    rw [hmore, ih]
    cases hnumber : ofNumber number with
    | ok stored => simp [write, storedForms, hnumber, Except.toOption]
    | error e => simp [write, storedForms, hnumber, Except.toOption]

/-- The number in the middle has no stored form. -/
example : written [.signed (-0x2000), .unsigned 0x20000000, .unsigned 0x80] [0xAA] =
    [0xAA, 0x80, 0x01, 0x80, 0x80] := by decide

theorem storedForms_of_stored {numbers : List Number} {integers : List Compressed}
    (h : Stored numbers integers) : storedForms numbers = integers := by
  induction h with
  | nil => rfl
  | cons hstored _ ih =>
    rw [storedForms, List.filterMap_cons, hstored]
    exact congrArg _ ih

/-- If all numbers have a stored form, these forms are what is written. -/
theorem written_of_stored {numbers : List Number} {integers : List Compressed}
    (h : Stored numbers integers) (buffer : Bytes) :
    written numbers buffer = buffer ++ integers.flatMap bytes := by
  rw [written_eq, storedForms_of_stored h]

end PortablePdb.Compressed
