import PortablePdb.Cursor
import PortablePdb.Proofs.Compressed.Writing

/-!
# Streams of compressed integers

A row of numbers, some to be written without a sign and some with one, is written to a buffer. What
the buffer grows by are the stored forms of the numbers that have one (`written_eq`); a number that
has none is refused and changes nothing. A cursor in front of these bytes reads the numbers back,
each in the way in which it was written, and stands behind the last of them, whatever follows
(`runAll_between`).

* `writeAll_readBack`: how each number fares, and that the stream is read back.
-/

namespace PortablePdb

namespace Cursor

/-- What a read gave, without the position behind it. -/
def Outcome.reading (outcome : Outcome) : (read : Read) × Except DebugError read.Result :=
  ⟨outcome.read, outcome.result⟩

end Cursor

namespace Compressed

namespace Number

/-- The range of the numbers that have a stored form. -/
def InRange : Number → Prop
  | unsigned n => n ≤ 0x1FFFFFFF
  | signed n => -0x10000000 ≤ n ∧ n ≤ 0x0FFFFFFF

instance : DecidablePred InRange
  | unsigned n => inferInstanceAs (Decidable (n ≤ 0x1FFFFFFF))
  | signed n => inferInstanceAs (Decidable (-0x10000000 ≤ n ∧ n ≤ 0x0FFFFFFF))

/-- The read that takes a number back in the way in which it was written. -/
abbrev reader : Number → Cursor.Read
  | unsigned _ => .unsigned
  | signed _ => .signed

/-- What its read should give. -/
def result : (number : Number) → number.reader.Result
  | unsigned n => n
  | signed n => n

def reading (number : Number) : (read : Cursor.Read) × Except DebugError read.Result :=
  ⟨number.reader, .ok number.result⟩

end Number

/-! ## Writing -/

theorem exists_stored_iff {number : Number} :
    (∃ stored, ofNumber number = .ok stored) ↔ number.InRange := by
  cases number with
  | unsigned n => exact ofNat_eq_ok_iff
  | signed n => exact ofInt_eq_ok_iff

/-- How writing one number goes. -/
structure Writes (number : Number) (before : Bytes) (outcome : Except DebugError Bytes)
    (after : Bytes) : Prop where
  /-- The numbers in range are written, and no others. -/
  succeeds : (∃ bytes, outcome = .ok bytes) ↔ number.InRange
  /-- The bytes that are reported are what the buffer has grown by. -/
  appends : ∀ bytes, outcome = .ok bytes → after = before ++ bytes
  /-- A number that is refused leaves the buffer as it is. -/
  unchanged : ∀ e, outcome = .error e → after = before

theorem writes_write (number : Number) (buffer : Bytes) :
    Writes number buffer (write number buffer).1 (write number buffer).2 := by
  cases hnumber : ofNumber number with
  | ok stored =>
    have hrange : number.InRange := exists_stored_iff.1 ⟨stored, hnumber⟩
    have hwrite : write number buffer = (.ok stored.bytes, buffer ++ stored.bytes) := by
      simp [write, hnumber]
    rw [hwrite]
    refine ⟨⟨fun _ => hrange, fun _ => ⟨stored.bytes, rfl⟩⟩, ?_, ?_⟩
    · intro bytes hbytes
      cases hbytes
      rfl
    · intro e he
      cases he
  | error e =>
    have hrange : ¬ number.InRange := by
      intro h
      obtain ⟨stored, hstored⟩ := exists_stored_iff.2 h
      rw [hnumber] at hstored
      cases hstored
    have hwrite : write number buffer = (.error e, buffer) := by simp [write, hnumber]
    rw [hwrite]
    refine ⟨⟨?_, fun h => absurd h hrange⟩, ?_, fun _ _ => rfl⟩
    · rintro ⟨bytes, hbytes⟩
      cases hbytes
    · intro bytes hbytes
      cases hbytes

theorem written_take_succ {numbers : List Number} {k : Nat} {number : Number}
    (h : numbers[k]? = some number) (buffer : Bytes) :
    written (numbers.take (k + 1)) buffer =
      (write number (written (numbers.take k) buffer)).2 := by
  rw [written, List.take_add_one, h, List.foldl_append]
  rfl

theorem getElem?_writeAll (numbers : List Number) (buffer : Bytes) (k : Nat) :
    (writeAll numbers buffer)[k]? =
      numbers[k]?.map fun number => write number (written (numbers.take k) buffer) := by
  induction numbers generalizing buffer k with
  | nil => rfl
  | cons number more ih =>
    cases k with
    | zero => rfl
    | succ k => exact ih (write number buffer).2 k

theorem stored_storedForms (numbers : List Number) :
    Stored (numbers.filter (·.InRange)) (storedForms numbers) := by
  induction numbers with
  | nil => exact .nil
  | cons number more ih =>
    by_cases hrange : number.InRange
    · obtain ⟨stored, hstored⟩ := exists_stored_iff.2 hrange
      simpa [storedForms, hrange, hstored, Except.toOption] using Stored.cons hstored ih
    · cases hnumber : ofNumber number with
      | ok stored => exact absurd (exists_stored_iff.1 ⟨stored, hnumber⟩) hrange
      | error e => simpa [storedForms, hrange, hnumber, Except.toOption] using ih

/-! ## Reading -/

/-- A stored integer that means a number is read as that number, whether or not it would be written
so. -/
theorem run_reader_of_readAs {number : Number} {stored : Compressed}
    (h : stored.readAs number = number) (front rest : Bytes) :
    (Cursor.between front (stored.bytes ++ rest)).run number.reader =
      (.ok number.result, .between (front ++ stored.bytes) rest) := by
  have hread := Cursor.readCompressed_between front stored rest
  cases number with
  | unsigned n =>
    have hvalue : stored.value = n := Number.unsigned.inj h
    simp [Cursor.run, hread, Except.map, hvalue, Number.result]
  | signed n =>
    have hvalue : stored.signed = n := Number.signed.inj h
    simp [Cursor.run, hread, Except.map, hvalue, Number.result]

theorem run_reader {number : Number} {stored : Compressed} (h : ofNumber number = .ok stored)
    (front rest : Bytes) :
    (Cursor.between front (stored.bytes ++ rest)).run number.reader =
      (.ok number.result, .between (front ++ stored.bytes) rest) :=
  run_reader_of_readAs (readAs_of_ofNumber h) front rest

/-- The induction is on the numbers; the bytes of those that have been read join what is in front
of the cursor. -/
theorem runAll_between {numbers : List Number} {integers : List Compressed}
    (h : Stored numbers integers) (front rest : Bytes) :
    let start := Cursor.between front (integers.flatMap bytes ++ rest)
    let outcomes := Cursor.runAll (numbers.map Number.reader) start
    outcomes.map Cursor.Outcome.reading = numbers.map Number.reading ∧
      (outcomes.map Cursor.Outcome.cursor).getLastD start =
        .between (front ++ integers.flatMap bytes) rest := by
  induction h generalizing front with
  | nil => simp [Cursor.runAll]
  | @cons number stored numbers integers hstored _ ih =>
    intro start outcomes
    have hstart : start = .between front (stored.bytes ++ (integers.flatMap bytes ++ rest)) := by
      simp [start, List.append_assoc]
    have hrun : start.run number.reader =
        (.ok number.result, .between (front ++ stored.bytes) (integers.flatMap bytes ++ rest)) := by
      rw [hstart]
      exact run_reader hstored front _
    obtain ⟨hreadings, hlast⟩ := ih (front ++ stored.bytes)
    have houtcomes : outcomes = ⟨number.reader, .ok number.result,
        .between (front ++ stored.bytes) (integers.flatMap bytes ++ rest)⟩ ::
          Cursor.runAll (numbers.map Number.reader)
            (.between (front ++ stored.bytes) (integers.flatMap bytes ++ rest)) := by
      simp only [outcomes, List.map_cons, Cursor.runAll, hrun]
    rw [houtcomes]
    refine ⟨?_, ?_⟩
    · rw [List.map_cons, hreadings]
      rfl
    · rw [List.map_cons, List.getLastD_cons, hlast, List.flatMap_cons, List.append_assoc]

/-- **A stream is read back.** -/
theorem writeAll_readBack (numbers : List Number) (buffer : Bytes) :
    (∀ k number, numbers[k]? = some number → ∃ outcome,
      (writeAll numbers buffer)[k]? = some (outcome, written (numbers.take (k + 1)) buffer) ∧
        Writes number (written (numbers.take k) buffer) outcome
          (written (numbers.take (k + 1)) buffer)) ∧
    ∃ stream, written numbers buffer = buffer ++ stream ∧
      ∀ front rest,
        let start := Cursor.between front (stream ++ rest)
        let kept := numbers.filter (·.InRange)
        let outcomes := Cursor.runAll (kept.map Number.reader) start
        outcomes.map Cursor.Outcome.reading = kept.map Number.reading ∧
          (outcomes.map Cursor.Outcome.cursor).getLastD start =
            .between (front ++ stream) rest := by
  refine ⟨?_, (storedForms numbers).flatMap bytes, written_eq numbers buffer, ?_⟩
  · intro k number hnumber
    refine ⟨(write number (written (numbers.take k) buffer)).1, ?_, ?_⟩
    · rw [getElem?_writeAll, hnumber, written_take_succ hnumber]
      rfl
    · rw [written_take_succ hnumber]
      exact writes_write number _
  · intro front rest
    exact runAll_between (stored_storedForms numbers) front rest

end Compressed

end PortablePdb
