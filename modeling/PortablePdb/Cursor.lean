import PortablePdb.Compressed
import PortablePdb.Text.Utf8

/-!
# Reading from a position

A cursor is a byte string with a position in it. Fixed-size reads either succeed and move past
what they read, or fail and do not move. Compressed integers are looked at byte by byte, so a
failed read of one has moved past the bytes that it looked at.

* `take?_eq_some_iff`: a fixed-size read succeeds exactly if enough bytes remain.
* `readByWords`: reads bytes up to an end that is computed as a machine word.
* `readByBytes`: reads a compressed integer one byte at a time.
* `pos_le_run`: no read moves backwards.
* `data_run`: no read changes the data.
-/

namespace PortablePdb

/-- A position in a byte string. -/
structure Cursor where
  data : Bytes
  pos : Nat
  pos_le : pos ≤ data.length

/-- The size and sign of an integer of fixed size. -/
structure IntFormat where
  size : Nat
  isSigned : Bool
  deriving DecidableEq

def IntFormat.decode (format : IntFormat) (bytes : Bytes) : Int :=
  if format.isSigned then littleEndianSigned bytes else littleEndian bytes

namespace Cursor

def start (data : Bytes) : Cursor := ⟨data, 0, Nat.zero_le _⟩

/-- The cursor behind some bytes and in front of others. -/
def between (front back : Bytes) : Cursor := ⟨front ++ back, front.length, by simp⟩

def rest (cursor : Cursor) : Bytes := cursor.data.drop cursor.pos

def remaining (cursor : Cursor) : Nat := cursor.data.length - cursor.pos

def hasMore (cursor : Cursor) : Bool := cursor.pos < cursor.data.length

def indexOf (cursor : Cursor) (byte : UInt8) : Option Nat := cursor.rest.findIdx? (· == byte)

/-- The next `n` bytes and the position behind them, if there are so many. -/
def take? (cursor : Cursor) (n : Nat) : Option (Bytes × Cursor) :=
  if h : n ≤ cursor.remaining then
    some (cursor.rest.take n,
      ⟨cursor.data, cursor.pos + n, by have := cursor.pos_le; simp only [remaining] at h; omega⟩)
  else none

/-- Reads `n` bytes, or fails without moving. -/
def readBytes (cursor : Cursor) (n : Nat) : Except DebugError Bytes × Cursor :=
  match cursor.take? n with
  | some (bytes, next) => (.ok bytes, next)
  | none => (.error .outOfBounds, cursor)

/-- Reads `n` bytes as text, or fails without moving. -/
def readText (cursor : Cursor) (n : Nat) : Except DebugError String × Cursor :=
  (cursor.readBytes n).map (·.map Utf8.decode) id

/-- Reads an integer of fixed size, or fails without moving. -/
def readInt (cursor : Cursor) (format : IntFormat) : Except DebugError Int × Cursor :=
  (cursor.readBytes format.size).map (·.map format.decode) id

/-- Reads a compressed integer. A failed read has moved past the bytes that it looked at. -/
def readCompressed (cursor : Cursor) : Except DebugError Compressed × Cursor :=
  let result := Compressed.read cursor.rest
  (result.1, ⟨cursor.data, cursor.data.length - result.2.length, Nat.sub_le _ _⟩)

/-! ## Reading with machine words -/

/-- The sum of two machine words, unless there is no word for it. -/
def checkedAdd? (a b : UInt64) : Option UInt64 :=
  let sum := a + b
  if sum < a then none else some sum

/-- Reads some bytes, or fails without moving. Positions are machine words here, and there may be
none for the end of the read. -/
def readByWords (cursor : Cursor) (length : UInt64) : Except DebugError Bytes × Cursor :=
  match checkedAdd? (.ofNat cursor.pos) length with
  | none => (.error .outOfBounds, cursor)
  | some stop =>
    if h : stop.toNat ≤ cursor.data.length then
      (.ok ((cursor.data.take stop.toNat).drop cursor.pos), ⟨cursor.data, stop.toNat, h⟩)
    else (.error .outOfBounds, cursor)

/-! ## Reading byte by byte -/

/-- Readings that follow one another, up to the first that fails. Behind that one the cursor stays
where it is. -/
abbrev Reading := ExceptT DebugError (StateM Cursor)

/-- Reads the next byte, or fails without moving. -/
def readByte : Reading UInt8 := fun cursor =>
  (cursor.readInt ⟨1, false⟩).map (·.map fun byte => UInt8.ofNat byte.toNat) id

/-- Reads the bytes that follow the first one of a compressed integer. -/
def readTail (lead : UInt8) : Width → Reading Compressed
  | .one => return .ofByte lead
  | .two => return .ofTwoBytes lead (← readByte)
  | .four => return .ofFourBytes lead (← readByte) (← readByte) (← readByte)

/-- Reads a compressed integer byte by byte. The first byte tells how many follow. -/
def readByBytes : Reading Compressed := do
  let lead ← readByte
  match Width.ofLead? lead with
  | none => throw (.malformed (.leadByte lead))
  | some width => readTail lead width

/-- A reading that succeeds hands its value on, and the next one starts where it stopped. -/
theorem bind_of_ok {α β : Type} {reading : Reading α} {cursor next : Cursor} {value : α}
    (h : reading cursor = (.ok value, next)) (more : α → Reading β) :
    (reading >>= more) cursor = more value next := by
  show (match reading cursor with | (result, next) => ExceptT.bindCont more result next) = _
  rw [h]
  rfl

theorem bind_of_error {α β : Type} {reading : Reading α} {cursor next : Cursor} {e : DebugError}
    (h : reading cursor = (.error e, next)) (more : α → Reading β) :
    (reading >>= more) cursor = (.error e, next) := by
  show (match reading cursor with | (result, next) => ExceptT.bindCont more result next) = _
  rw [h]
  rfl

/-! ## Runs of reads -/

/-- A read that a cursor can be asked for. -/
inductive Read
  | int (format : IntFormat)
  | unsigned
  | signed
  | bytes (n : Nat)
  | text (n : Nat)
  | indexOf (byte : UInt8)

/-- What a read gives if it succeeds. -/
abbrev Read.Result : Read → Type
  | .int _ => Int
  | .unsigned => Nat
  | .signed => Int
  | .bytes _ => Bytes
  | .text _ => String
  | .indexOf _ => Option Nat

def run (cursor : Cursor) : (read : Read) → Except DebugError read.Result × Cursor
  | .int format => cursor.readInt format
  | .unsigned => cursor.readCompressed.map (·.map Compressed.value) id
  | .signed => cursor.readCompressed.map (·.map Compressed.signed) id
  | .bytes n => cursor.readBytes n
  | .text n => cursor.readText n
  | .indexOf byte => (.ok (cursor.indexOf byte), cursor)

/-- What came of a read, and the position behind it. -/
structure Outcome where
  read : Read
  result : Except DebugError read.Result
  cursor : Cursor

/-- Carries out some reads one after the other. A failed read does not stop the run. -/
def runAll : List Read → Cursor → List Outcome
  | [], _ => []
  | read :: more, cursor =>
    let (result, next) := cursor.run read
    ⟨read, result, next⟩ :: runAll more next

/-! ## What reads do to the position -/

/-- What is behind a cursor and what is in front of it make up the data. -/
theorem pos_add_remaining (cursor : Cursor) :
    cursor.pos + cursor.remaining = cursor.data.length := by
  have := cursor.pos_le
  simp only [remaining]
  omega

@[simp] theorem length_rest (cursor : Cursor) : cursor.rest.length = cursor.remaining := by
  simp [rest, remaining]

@[simp] theorem rest_between (front back : Bytes) : (between front back).rest = back := by
  simp [between, rest]

theorem hasMore_iff (cursor : Cursor) : cursor.hasMore = true ↔ cursor.rest ≠ [] := by
  rw [← List.length_pos_iff, length_rest, hasMore, decide_eq_true_eq, remaining]
  omega

theorem not_hasMore_between_nil (front : Bytes) : ¬ (between front []).hasMore = true := by
  rw [hasMore_iff, rest_between]
  exact fun h => h rfl

/-- There is something to read in front of a cursor that a read can move on. -/
theorem hasMore_of_remaining_lt {cursor next : Cursor} (h : next.remaining < cursor.remaining) :
    cursor.hasMore = true := by
  rw [hasMore_iff, ← List.length_pos_iff, length_rest]
  exact Nat.zero_lt_of_lt h

/-- Bytes are taken if so many remain. They are the first of the rest, and the cursor moves past
them. -/
theorem take?_eq_some_iff {cursor next : Cursor} {n : Nat} {bytes : Bytes} :
    cursor.take? n = some (bytes, next) ↔
      n ≤ cursor.remaining ∧ bytes = cursor.rest.take n ∧
        next.data = cursor.data ∧ next.pos = cursor.pos + n := by
  unfold take?
  split
  · rename_i h
    obtain ⟨data, pos, _⟩ := next
    simp only [Option.some.injEq, Prod.mk.injEq, Cursor.mk.injEq, h, true_and]
    constructor
    · rintro ⟨rfl, rfl, rfl⟩
      exact ⟨rfl, rfl, rfl⟩
    · rintro ⟨rfl, rfl, rfl⟩
      exact ⟨rfl, rfl, rfl⟩
  · rename_i h
    simp [h]

theorem readBytes_of_le {cursor : Cursor} {n : Nat} (h : n ≤ cursor.remaining) :
    (cursor.readBytes n).1 = .ok (cursor.rest.take n) ∧
      (cursor.readBytes n).2.pos = cursor.pos + n := by
  simp [readBytes, take?, h]

theorem readBytes_of_lt {cursor : Cursor} {n : Nat} (h : cursor.remaining < n) :
    cursor.readBytes n = (.error .outOfBounds, cursor) := by
  simp [readBytes, take?, Nat.not_le.2 h]

theorem readBytes_between (front bytes back : Bytes) :
    (between front (bytes ++ back)).readBytes bytes.length =
      (.ok bytes, between (front ++ bytes) back) := by
  have hle : bytes.length ≤ (between front (bytes ++ back)).remaining := by
    rw [← length_rest, rest_between, List.length_append]
    exact Nat.le_add_right _ _
  simp only [readBytes, take?, dif_pos hle, rest_between, List.take_left]
  simp [between]

theorem readByte_between (front : Bytes) (byte : UInt8) (back : Bytes) :
    (between front (byte :: back)).readInt ⟨1, false⟩ =
      (.ok byte.toNat, between (front ++ [byte]) back) := by
  have hread := readBytes_between front [byte] back
  rw [List.singleton_append, List.length_singleton] at hread
  simp [readInt, hread, Except.map, IntFormat.decode, littleEndian]

/-- A read takes as many bytes from those that remain as it asks for. -/
theorem remaining_of_readBytes {cursor next : Cursor} {n : Nat} {bytes : Bytes}
    (h : cursor.readBytes n = (.ok bytes, next)) : next.remaining + n = cursor.remaining := by
  unfold readBytes at h
  split at h
  · rename_i htake
    cases h
    obtain ⟨hle, -, hdata, hpos⟩ := take?_eq_some_iff.1 htake
    simp only [remaining] at hle ⊢
    rw [hdata, hpos]
    omega
  · cases h

theorem remaining_of_readInt {cursor next : Cursor} {format : IntFormat} {value : Int}
    (h : cursor.readInt format = (.ok value, next)) :
    next.remaining + format.size = cursor.remaining := by
  rcases hread : cursor.readBytes format.size with ⟨result, behind⟩
  rw [readInt, hread] at h
  cases result with
  | error e => cases h
  | ok bytes =>
    cases h
    exact remaining_of_readBytes hread

/-- A compressed read moves past the bytes that it does not leave, whether it succeeds or not. -/
theorem readCompressed_of_read {front input rest : Bytes} {result : Except DebugError Compressed}
    (h : Compressed.read input = (result, rest)) (done : Bytes) (hinput : input = done ++ rest) :
    (between front input).readCompressed = (result, between (front ++ done) rest) := by
  subst hinput
  simp only [readCompressed, rest_between, h]
  simp only [between, Prod.mk.injEq, Cursor.mk.injEq, List.append_assoc, List.length_append,
    true_and]
  omega

/-- An integer in front of the cursor is read back, and joins what is behind the cursor. -/
theorem readCompressed_between (front : Bytes) (stored : Compressed) (rest : Bytes) :
    (between front (stored.bytes ++ rest)).readCompressed =
      (.ok stored, between (front ++ stored.bytes) rest) :=
  readCompressed_of_read (Compressed.read_bytes_append stored rest) stored.bytes rfl

/-- A cursor is known from what is behind it and what is in front of it. -/
theorem eq_between (cursor : Cursor) :
    cursor = between (cursor.data.take cursor.pos) cursor.rest := by
  obtain ⟨data, pos, hpos⟩ := cursor
  simp [between, rest, Nat.min_eq_left hpos]

/-- A read that succeeds has moved past the bytes of the integer that it gives. -/
theorem exists_between_of_readCompressed {cursor next : Cursor} {stored : Compressed}
    (h : cursor.readCompressed = (.ok stored, next)) :
    ∃ front rest, cursor = between front (stored.bytes ++ rest) ∧
      next = between (front ++ stored.bytes) rest := by
  rcases hread : Compressed.read cursor.rest with ⟨result, rest⟩
  have hresult : result = .ok stored := by
    have hfirst := congrArg Prod.fst h
    simpa only [readCompressed, hread] using hfirst
  subst hresult
  have hcursor : cursor = between (cursor.data.take cursor.pos) (stored.bytes ++ rest) := by
    rw [← Compressed.eq_append_of_read hread]
    exact cursor.eq_between
  refine ⟨cursor.data.take cursor.pos, rest, hcursor, ?_⟩
  rw [hcursor, readCompressed_between] at h
  exact (Prod.mk.inj h).2.symm

/-- A read of an integer makes progress, so reading one after the other comes to an end. -/
theorem remaining_of_readCompressed {cursor next : Cursor} {stored : Compressed}
    (h : cursor.readCompressed = (.ok stored, next)) : next.remaining < cursor.remaining := by
  obtain ⟨front, rest, rfl, rfl⟩ := exists_between_of_readCompressed h
  have hbytes := List.length_pos_iff.2 stored.bytes_ne_nil
  rw [← length_rest, ← length_rest, rest_between, rest_between, List.length_append]
  omega

theorem pos_le_readBytes (cursor : Cursor) (n : Nat) : cursor.pos ≤ (cursor.readBytes n).2.pos := by
  unfold readBytes take?
  split
  · rename_i h
    split at h
    · simp only [Option.some.injEq, Prod.mk.injEq] at h
      rw [← h.2]
      exact Nat.le_add_right _ _
    · cases h
  · exact Nat.le_refl _

theorem pos_le_readCompressed (cursor : Cursor) : cursor.pos ≤ cursor.readCompressed.2.pos := by
  have hread := Compressed.length_read_le cursor.rest
  have hpos := cursor.pos_le
  rw [length_rest, remaining] at hread
  simp only [readCompressed]
  omega

/-- Whether it succeeds or fails, a read does not move backwards. -/
theorem pos_le_run (cursor : Cursor) (read : Read) : cursor.pos ≤ (cursor.run read).2.pos := by
  cases read with
  | int format => exact pos_le_readBytes cursor _
  | unsigned => exact pos_le_readCompressed cursor
  | signed => exact pos_le_readCompressed cursor
  | bytes n => exact pos_le_readBytes cursor n
  | text n => exact pos_le_readBytes cursor n
  | indexOf byte => exact Nat.le_refl _

theorem data_readBytes (cursor : Cursor) (n : Nat) :
    (cursor.readBytes n).2.data = cursor.data := by
  unfold readBytes take?
  split
  · rename_i h
    split at h
    · simp only [Option.some.injEq, Prod.mk.injEq] at h
      rw [← h.2]
    · cases h
  · rfl

theorem data_run (cursor : Cursor) (read : Read) : (cursor.run read).2.data = cursor.data := by
  cases read with
  | int format => exact data_readBytes cursor _
  | unsigned => rfl
  | signed => rfl
  | bytes n => exact data_readBytes cursor n
  | text n => exact data_readBytes cursor n
  | indexOf byte => rfl

end Cursor

end PortablePdb
