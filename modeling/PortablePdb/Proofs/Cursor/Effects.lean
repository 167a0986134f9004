import Mathlib.Data.Nat.Digits.Defs
import PortablePdb.Cursor
import PortablePdb.Proofs.Compressed.CutOff

/-!
# What reads do to a cursor

There are two ways in which a read can fail. One that asks for a number of bytes takes them all or
none (`allOrNone_readBytes`); that its end is computed as a machine word, which may overflow, makes
no difference (`readByWords_eq`). A compressed integer is read byte by byte (`readByBytes_eq`), and
a failure does not take back what was read before it: the cursor is behind the byte with which no
integer begins, or at the end of the data if the integer is cut off (`byteByByte_readCompressed`).
To look for a byte is no move at all (`finds_indexOf`). Whichever way a read goes, it never moves
backwards or beyond the end (`advances_run`).

* `runAll_safe`: all of this for every read of a run, whatever reads it consists of.
-/

namespace PortablePdb

/-! ## Numbers of fixed size -/

theorem byteValues_eq_pow (size : Nat) : byteValues size = 256 ^ size := by
  induction size with
  | zero => rfl
  | succ size ih => rw [byteValues, ih, Nat.pow_succ, Nat.mul_comm]

/-- The bytes are digits to the base 256. -/
theorem littleEndian_eq_ofDigits (bytes : Bytes) :
    littleEndian bytes = Nat.ofDigits 256 (bytes.map UInt8.toNat) := by
  induction bytes with
  | nil => rfl
  | cons byte rest ih => rw [littleEndian, ih, List.map_cons, Nat.ofDigits_cons]

/-- The upper half of the numbers stands for the negative ones. -/
theorem littleEndianSigned_eq (bytes : Bytes) :
    littleEndianSigned bytes =
      if byteValues bytes.length ≤ 2 * littleEndian bytes then
        (littleEndian bytes : Int) - byteValues bytes.length
      else littleEndian bytes := by
  have hlt := littleEndian_lt bytes
  rw [littleEndianSigned, Int.bmod_def, Int.emod_eq_of_lt (by omega) (by omega)]
  split <;> split <;> omega

namespace IntFormat

/-- The number that some bytes stand for. They are its digits, the least significant first; in a
signed format the upper half of the numbers stands for the negative ones. -/
def valueOf (format : IntFormat) (bytes : Bytes) : Int :=
  let digits : Nat := Nat.ofDigits 256 (bytes.map UInt8.toNat)
  let numbers : Nat := 256 ^ bytes.length
  if format.isSigned ∧ numbers ≤ 2 * digits then digits - numbers else digits

theorem decode_eq_valueOf (format : IntFormat) (bytes : Bytes) :
    format.decode bytes = format.valueOf bytes := by
  simp only [decode, valueOf, ← littleEndian_eq_ofDigits, ← byteValues_eq_pow,
    littleEndianSigned_eq]
  cases format.isSigned <;> simp

end IntFormat

namespace Cursor

/-! ## Reads of a number of bytes -/

/-- A sum that wraps around is smaller than either of its parts. -/
theorem add_lt_iff {a b : UInt64} : a + b < a ↔ UInt64.size ≤ a.toNat + b.toNat := by
  have ha : a.toNat < UInt64.size := a.toNat_lt
  have hb : b.toNat < UInt64.size := b.toNat_lt
  have hsum : (a + b).toNat = (a.toNat + b.toNat) % UInt64.size := UInt64.toNat_add a b
  rw [UInt64.lt_iff_toNat_lt, hsum]
  rcases Nat.lt_or_ge (a.toNat + b.toNat) UInt64.size with hlt | hle
  · rw [Nat.mod_eq_of_lt hlt]
    omega
  · rw [Nat.mod_eq_sub_mod hle, Nat.mod_eq_of_lt (by omega)]
    omega

/-- There is no word for a sum if it needs more than 64 bits. -/
theorem checkedAdd?_eq_none_iff {a b : UInt64} :
    checkedAdd? a b = none ↔ UInt64.size ≤ a.toNat + b.toNat := by
  rw [← add_lt_iff, checkedAdd?]
  simp

theorem toNat_of_checkedAdd? {a b sum : UInt64} (h : checkedAdd? a b = some sum) :
    sum.toNat = a.toNat + b.toNat := by
  have hlt : a.toNat + b.toNat < UInt64.size := by
    refine Nat.lt_of_not_le fun hle => ?_
    rw [checkedAdd?_eq_none_iff.2 hle] at h
    cases h
  obtain rfl : a + b = sum := by
    rw [checkedAdd?, if_neg (mt add_lt_iff.1 (Nat.not_le.2 hlt))] at h
    exact Option.some.inj h
  exact (UInt64.toNat_add a b).trans (Nat.mod_eq_of_lt hlt)

/-- Machine words count as natural numbers do: either there is no word for the end of a read, and
then the data ends before it, or it is that end. -/
theorem readByWords_eq {cursor : Cursor} (hdata : cursor.data.length < UInt64.size)
    (length : UInt64) : cursor.readByWords length = cursor.readBytes length.toNat := by
  have hpos : (UInt64.ofNat cursor.pos).toNat = cursor.pos :=
    UInt64.toNat_ofNat_of_lt (Nat.lt_of_le_of_lt cursor.pos_le hdata)
  have htotal := cursor.pos_add_remaining
  have htooLong (h : cursor.data.length < cursor.pos + length.toNat) :
      cursor.readBytes length.toNat = (.error .outOfBounds, cursor) :=
    readBytes_of_lt (by omega)
  rw [readByWords]
  cases hstop : checkedAdd? (.ofNat cursor.pos) length with
  | none =>
    have hoverflow := checkedAdd?_eq_none_iff.1 hstop
    rw [hpos] at hoverflow
    exact (htooLong (Nat.lt_of_lt_of_le hdata hoverflow)).symm
  | some stop =>
    have hsum := toNat_of_checkedAdd? hstop
    rw [hpos] at hsum
    simp only
    split
    · rename_i hle
      have hremaining : length.toNat ≤ cursor.remaining := by omega
      simp only [readBytes, take?, dif_pos hremaining, hsum, List.drop_take,
        Nat.add_sub_cancel_left, rest]
    · exact (htooLong (by omega)).symm

/-- A read of `n` bytes, which give a value. -/
structure AllOrNone {α : Type} (n : Nat) (value : Bytes → α) (before : Cursor)
    (result : Except DebugError α) (after : Cursor) : Prop where
  /-- It succeeds if so many bytes remain, and only then. -/
  succeeds_iff : (∃ a, result = .ok a) ↔ n ≤ before.remaining
  /-- It gives the value of the bytes at the cursor, and moves past them. -/
  success : ∀ a, result = .ok a →
    a = value ((before.data.drop before.pos).take n) ∧ after.pos = before.pos + n
  /-- If it fails, it does not move. -/
  failure : ∀ e, result = .error e → e = .outOfBounds ∧ after = before
  /-- It is the same with positions that are machine words, as long as the data can be counted. -/
  words : ∀ length : UInt64, length.toNat = n → before.data.length < UInt64.size →
    (readByWords before length).map (·.map value) id = (result, after)
  /-- In particular it fails in the same way if there is no machine word for its end. -/
  overflow : ∀ length : UInt64, length.toNat = n → before.data.length < UInt64.size →
    checkedAdd? (.ofNat before.pos) length = none → result = .error .outOfBounds ∧ after = before

theorem allOrNone_readBytes (cursor : Cursor) (n : Nat) {α : Type} (value : Bytes → α) :
    AllOrNone n value cursor ((cursor.readBytes n).1.map value) (cursor.readBytes n).2 := by
  have hwords : ∀ length : UInt64, length.toNat = n → cursor.data.length < UInt64.size →
      (cursor.readByWords length).map (·.map value) id =
        ((cursor.readBytes n).1.map value, (cursor.readBytes n).2) := by
    rintro length rfl hdata
    rw [readByWords_eq hdata]
    rfl
  have hoverflow : ∀ length : UInt64, length.toNat = n → cursor.data.length < UInt64.size →
      checkedAdd? (.ofNat cursor.pos) length = none →
        (cursor.readBytes n).1.map value = .error .outOfBounds ∧
          (cursor.readBytes n).2 = cursor := by
    intro length hlength hdata hnone
    have hread := hwords length hlength hdata
    rw [readByWords, hnone] at hread
    exact ⟨(congrArg Prod.fst hread).symm, (congrArg Prod.snd hread).symm⟩
  rcases Nat.lt_or_ge cursor.remaining n with hlt | hle
  · have hnot : ¬ n ≤ cursor.remaining := Nat.not_le.2 hlt
    refine ⟨?_, ?_, ?_, hwords, hoverflow⟩
    all_goals rw [readBytes_of_lt hlt]
    · simp [Except.map, hnot]
    · intro a ha
      cases ha
    · intro e he
      cases he
      exact ⟨rfl, rfl⟩
  · obtain ⟨hresult, hpos⟩ := readBytes_of_le hle
    refine ⟨?_, ?_, ?_, hwords, hoverflow⟩
    all_goals rw [hresult]
    · simp [Except.map, hle]
    · intro a ha
      cases ha
      exact ⟨rfl, hpos⟩
    · intro e he
      cases he

/-! ## Compressed integers, byte by byte -/

theorem readByte_cons (front : Bytes) (byte : UInt8) (back : Bytes) :
    readByte (between front (byte :: back)) = (.ok byte, between (front ++ [byte]) back) := by
  simp only [readByte, readByte_between, Prod.map, Except.map, id_eq]
  simp

theorem readByte_nil (front : Bytes) :
    readByte (between front []) = (.error .outOfBounds, between front []) := by
  have hread : (between front []).readBytes 1 = (.error .outOfBounds, between front []) := by
    apply readBytes_of_lt
    rw [← length_rest, rest_between]
    exact Nat.zero_lt_one
  simp [readByte, readInt, hread, Except.map]

/-- A read of an integer that is cut off moves to the end. -/
theorem readCompressed_of_length_lt {lead : UInt8} {width : Width} {tail : Bytes}
    (h : Width.ofLead? lead = some width) (hlength : tail.length + 1 < width.size)
    (front : Bytes) :
    (between front (lead :: tail)).readCompressed =
      (.error .outOfBounds, between (front ++ lead :: tail) []) :=
  readCompressed_of_read (Compressed.read_of_length_lt h hlength) (lead :: tail)
    (List.append_nil _).symm

/-- Behind the first byte the reads go on one byte at a time, until the width is filled or the data
ends. -/
theorem readTail_between {lead : UInt8} {width : Width} (h : Width.ofLead? lead = some width)
    (front tail : Bytes) :
    readTail lead width (between (front ++ [lead]) tail) =
      (between front (lead :: tail)).readCompressed := by
  cases width with
  | one =>
    have hread : Compressed.read (lead :: tail) = (.ok (.ofByte lead), tail) := by
      simp only [Compressed.read, h]
    rw [readCompressed_of_read hread [lead] rfl]
    rfl
  | two =>
    rw [readTail]
    rcases tail with _ | ⟨second, tail⟩
    · rw [bind_of_error (readByte_nil _), readCompressed_of_length_lt h (by simp [Width.size])]
    · have hread : Compressed.read (lead :: second :: tail) =
          (.ok (.ofTwoBytes lead second), tail) := by simp only [Compressed.read, h]
      rw [bind_of_ok (readByte_cons _ second tail), List.append_assoc,
        readCompressed_of_read hread [lead, second] rfl]
      rfl
  | four =>
    -- The bytes may end behind each of the first three; every byte that is there joins the front.
    rw [readTail]
    rcases tail with _ | ⟨second, tail⟩
    · rw [bind_of_error (readByte_nil _), readCompressed_of_length_lt h (by simp [Width.size])]
    rw [bind_of_ok (readByte_cons _ second tail), List.append_assoc]
    rcases tail with _ | ⟨third, tail⟩
    · rw [bind_of_error (readByte_nil _), readCompressed_of_length_lt h (by simp [Width.size])]
      rfl
    rw [bind_of_ok (readByte_cons _ third tail), List.append_assoc]
    rcases tail with _ | ⟨fourth, tail⟩
    · rw [bind_of_error (readByte_nil _), readCompressed_of_length_lt h (by simp [Width.size])]
      rfl
    have hread : Compressed.read (lead :: second :: third :: fourth :: tail) =
        (.ok (.ofFourBytes lead second third fourth), tail) := by simp only [Compressed.read, h]
    rw [bind_of_ok (readByte_cons _ fourth tail), List.append_assoc,
      readCompressed_of_read hread [lead, second, third, fourth] rfl]
    rfl

/-- Reading byte by byte gives the same and stops at the same place. -/
theorem readByBytes_eq (cursor : Cursor) : readByBytes cursor = cursor.readCompressed := by
  rw [cursor.eq_between]
  rcases cursor.rest with _ | ⟨lead, tail⟩
  · have hread : Compressed.read [] = (.error .outOfBounds, []) := rfl
    rw [readByBytes, bind_of_error (readByte_nil _), readCompressed_of_read hread [] rfl,
      List.append_nil]
  · rw [readByBytes, bind_of_ok (readByte_cons _ lead tail)]
    cases h : Width.ofLead? lead with
    | none =>
      rw [readCompressed_of_read (Compressed.read_of_ofLead?_eq_none h tail) [lead] rfl]
      rfl
    | some width => exact readTail_between h _ tail

theorem getElem?_data (cursor : Cursor) (distance : Nat) :
    cursor.data[cursor.pos + distance]? = cursor.rest[distance]? :=
  List.getElem?_drop.symm

/-- Only a first byte from `0xE0` on is refused. -/
theorem readCompressed_malformed_iff {cursor : Cursor} {reason : Malformation} :
    cursor.readCompressed.1 = .error (.malformed reason) ↔
      ∃ lead, cursor.data[cursor.pos]? = some lead ∧ 0xE0 ≤ lead ∧ reason = .leadByte lead := by
  have hnext : cursor.data[cursor.pos]? = cursor.rest[0]? := getElem?_data cursor 0
  rw [hnext]
  exact Compressed.fst_read_eq_malformed_iff

theorem pos_readCompressed_of_malformed {cursor : Cursor} {reason : Malformation}
    (h : cursor.readCompressed.1 = .error (.malformed reason)) :
    cursor.readCompressed.2.pos = cursor.pos + 1 := by
  have htotal := cursor.pos_add_remaining
  have hread : Compressed.read cursor.rest =
      (.error (.malformed reason), (Compressed.read cursor.rest).2) := Prod.ext h rfl
  obtain ⟨lead, hrest, -, -⟩ := Compressed.exists_lead_of_read_malformed hread
  have hlength := congrArg List.length hrest
  rw [length_rest, List.length_cons] at hlength
  simp only [readCompressed]
  omega

theorem readCompressed_outOfBounds_iff {cursor : Cursor} :
    cursor.readCompressed.1 = .error .outOfBounds ↔
      cursor.rest = [] ∨ Compressed.CutOff cursor.rest :=
  Compressed.fst_read_eq_outOfBounds_iff

/-- An integer that is cut off is used up. -/
theorem pos_readCompressed_of_outOfBounds {cursor : Cursor}
    (h : cursor.readCompressed.1 = .error .outOfBounds) :
    cursor.readCompressed.2.pos = cursor.data.length := by
  have hread : Compressed.read cursor.rest =
      (.error .outOfBounds, (Compressed.read cursor.rest).2) := Prod.ext h rfl
  have hrest := Compressed.eq_nil_of_read_outOfBounds hread
  simp only [readCompressed]
  rw [hrest, List.length_nil, Nat.sub_zero]

theorem readCompressed_error_cases {cursor : Cursor} {e : DebugError}
    (h : cursor.readCompressed.1 = .error e) :
    e = .outOfBounds ∨ ∃ reason, e = .malformed reason := by
  rcases hrest : cursor.rest with _ | ⟨lead, tail⟩
  · simp only [readCompressed, hrest, Compressed.read] at h
    exact Or.inl (Except.error.inj h).symm
  · simp only [readCompressed, hrest] at h
    exact (Compressed.read_error_cases (Prod.ext h rfl)).imp_right fun h => ⟨_, h.1⟩

/-- A read of a compressed integer, which gives a value. -/
structure ByteByByte {α : Type} (value : Compressed → α) (before : Cursor)
    (result : Except DebugError α) (after : Cursor) : Prop where
  /-- It is made of reads of one byte each. -/
  made : (readByBytes before).map (·.map value) id = (result, after)
  /-- If it succeeds, it moves past the bytes of the integer. -/
  success : ∀ a, result = .ok a → ∃ stored : Compressed, a = value stored ∧
    before.rest = stored.bytes ++ after.rest ∧ after.pos = before.pos + stored.bytes.length
  /-- It refuses the next byte if that is too great to begin an integer, and then only. -/
  malformed_iff : ∀ reason, result = .error (.malformed reason) ↔
    ∃ lead, before.data[before.pos]? = some lead ∧ 0xE0 ≤ lead ∧ reason = .leadByte lead
  /-- It is then behind this byte. -/
  malformed : ∀ reason, result = .error (.malformed reason) → after.pos = before.pos + 1
  /-- It lacks bytes if none remain, or the first ones of an integer and no others. -/
  outOfBounds_iff : result = .error .outOfBounds ↔
    before.rest = [] ∨ Compressed.CutOff before.rest
  /-- It is then at the end. -/
  outOfBounds : result = .error .outOfBounds → after.pos = before.data.length
  /-- There is no other way to fail. -/
  failure : ∀ e, result = .error e → e = .outOfBounds ∨ ∃ reason, e = .malformed reason

theorem byteByByte_readCompressed (cursor : Cursor) {α : Type} (value : Compressed → α) :
    ByteByByte value cursor (cursor.readCompressed.1.map value) cursor.readCompressed.2 where
  made := by
    rw [readByBytes_eq]
    rfl
  success a h := by
    obtain ⟨stored, hstored, rfl⟩ := map_eq_ok_iff.1 h
    have hread : cursor.readCompressed = (.ok stored, cursor.readCompressed.2) :=
      Prod.ext hstored rfl
    obtain ⟨front, back, rfl, hafter⟩ := exists_between_of_readCompressed hread
    rw [hafter, rest_between, rest_between]
    exact ⟨stored, rfl, rfl, List.length_append⟩
  malformed_iff reason := by rw [map_eq_error_iff, readCompressed_malformed_iff]
  malformed reason h := pos_readCompressed_of_malformed (map_eq_error_iff.1 h)
  outOfBounds_iff := by rw [map_eq_error_iff, readCompressed_outOfBounds_iff]
  outOfBounds h := pos_readCompressed_of_outOfBounds (map_eq_error_iff.1 h)
  failure e h := readCompressed_error_cases (map_eq_error_iff.1 h)

/-! ## Looking for a byte -/

theorem indexOf_eq_some_iff {cursor : Cursor} {byte : UInt8} {distance : Nat} :
    cursor.indexOf byte = some distance ↔
      cursor.data[cursor.pos + distance]? = some byte ∧
        ∀ less < distance, cursor.data[cursor.pos + less]? ≠ some byte := by
  simp only [getElem?_data, indexOf, List.findIdx?_eq_some_iff_getElem, beq_iff_eq,
    List.getElem?_eq_some_iff]
  grind

theorem indexOf_eq_none_iff {cursor : Cursor} {byte : UInt8} :
    cursor.indexOf byte = none ↔
      ∀ distance, cursor.data[cursor.pos + distance]? ≠ some byte := by
  simp only [getElem?_data, indexOf, List.findIdx?_eq_none_iff, beq_eq_false_iff_ne]
  constructor
  · intro h distance hbyte
    exact h byte (List.mem_of_getElem? hbyte) rfl
  · rintro h other hmem rfl
    obtain ⟨distance, hother⟩ := List.mem_iff_getElem?.1 hmem
    exact h distance hother

/-- A search for a byte, from the cursor on. -/
structure Finds (byte : UInt8) (before : Cursor) (result : Except DebugError (Option Nat))
    (after : Cursor) : Prop where
  /-- It never fails, and does not move. -/
  unmoved : (∃ distance?, result = .ok distance?) ∧ after = before
  /-- It gives the least distance at which the byte stands. -/
  found : ∀ distance, result = .ok (some distance) ↔
    before.data[before.pos + distance]? = some byte ∧
      ∀ less < distance, before.data[before.pos + less]? ≠ some byte
  /-- It gives none if the byte does not occur. -/
  notFound : result = .ok none ↔ ∀ distance, before.data[before.pos + distance]? ≠ some byte

theorem finds_indexOf (cursor : Cursor) (byte : UInt8) :
    Finds byte cursor (.ok (cursor.indexOf byte)) cursor where
  unmoved := ⟨⟨_, rfl⟩, rfl⟩
  found distance := by rw [Except.ok.injEq, indexOf_eq_some_iff]
  notFound := by rw [Except.ok.injEq, indexOf_eq_none_iff]

/-! ## Runs -/

/-- How a cursor stands behind a read. -/
structure Advances (before after : Cursor) : Prop where
  data_eq : after.data = before.data
  pos_le_length : after.pos ≤ before.data.length
  pos_add_remaining : after.pos + after.remaining = before.data.length
  hasMore_iff : after.hasMore = true ↔ after.pos < before.data.length
  pos_le : before.pos ≤ after.pos

/-- No read leaves the data or goes back in them. -/
theorem advances_run (cursor : Cursor) (read : Read) : Advances cursor (cursor.run read).2 := by
  have hdata := data_run cursor read
  refine ⟨hdata, ?_, ?_, ?_, pos_le_run cursor read⟩
  · rw [← hdata]
    exact (cursor.run read).2.pos_le
  · rw [← hdata]
    exact (cursor.run read).2.pos_add_remaining
  · rw [← hdata, hasMore, decide_eq_true_eq]

/-- What a read gives, and where it leaves the cursor. -/
def Effect (before : Cursor) : Outcome → Prop
  | ⟨.int format, result, after⟩ => AllOrNone format.size format.valueOf before result after
  | ⟨.unsigned, result, after⟩ => ByteByByte Compressed.value before result after
  | ⟨.signed, result, after⟩ => ByteByByte Compressed.signed before result after
  | ⟨.bytes n, result, after⟩ => AllOrNone n id before result after
  | ⟨.text n, result, after⟩ => AllOrNone n Utf8.decode before result after
  | ⟨.indexOf byte, result, after⟩ => Finds byte before result after

theorem effect_run (cursor : Cursor) (read : Read) :
    Effect cursor ⟨read, (cursor.run read).1, (cursor.run read).2⟩ := by
  cases read with
  | int format =>
    have hvalue : format.valueOf = format.decode := funext fun bytes =>
      (format.decode_eq_valueOf bytes).symm
    simp only [Effect, hvalue]
    exact allOrNone_readBytes cursor format.size format.decode
  | unsigned => exact byteByByte_readCompressed cursor Compressed.value
  | signed => exact byteByByte_readCompressed cursor Compressed.signed
  | bytes n =>
    have hbytes := allOrNone_readBytes cursor n id
    have hid : (cursor.readBytes n).1.map id = (cursor.readBytes n).1 := by
      cases (cursor.readBytes n).1 <;> rfl
    rwa [hid] at hbytes
  | text n => exact allOrNone_readBytes cursor n Utf8.decode
  | indexOf byte => exact finds_indexOf cursor byte

/-- Reads that are carried out one after the other, each from where the last one has stopped. -/
inductive CarriedOut : Cursor → List Read → List Outcome → Prop
  | nil (cursor : Cursor) : CarriedOut cursor [] []
  | cons {before : Cursor} {reads : List Read} {outcomes : List Outcome} (outcome : Outcome)
      (advances : Advances before outcome.cursor) (effect : Effect before outcome)
      (more : CarriedOut outcome.cursor reads outcomes) :
      CarriedOut before (outcome.read :: reads) (outcome :: outcomes)

/-- The induction is on the reads; a failed one leaves a cursor from which the others go on. -/
theorem carriedOut_runAll (reads : List Read) (cursor : Cursor) :
    CarriedOut cursor reads (runAll reads cursor) := by
  induction reads generalizing cursor with
  | nil => exact .nil cursor
  | cons read more ih =>
    exact .cons ⟨read, (cursor.run read).1, (cursor.run read).2⟩ (advances_run cursor read)
      (effect_run cursor read) (ih (cursor.run read).2)

namespace CarriedOut

theorem forall_mem {cursor : Cursor} {reads : List Read} {outcomes : List Outcome}
    (h : CarriedOut cursor reads outcomes) :
    ∀ outcome ∈ outcomes, outcome.cursor.data = cursor.data ∧ cursor.pos ≤ outcome.cursor.pos := by
  induction h with
  | nil cursor => simp
  | cons outcome advances effect more ih =>
    intro other hmem
    rcases List.mem_cons.1 hmem with rfl | hmem
    · exact ⟨advances.data_eq, advances.pos_le⟩
    · obtain ⟨hdata, hpos⟩ := ih other hmem
      exact ⟨hdata.trans advances.data_eq, Nat.le_trans advances.pos_le hpos⟩

theorem pairwise {cursor : Cursor} {reads : List Read} {outcomes : List Outcome}
    (h : CarriedOut cursor reads outcomes) :
    outcomes.Pairwise fun earlier later => earlier.cursor.pos ≤ later.cursor.pos := by
  induction h with
  | nil cursor => exact .nil
  | cons outcome advances effect more ih =>
    exact List.pairwise_cons.2 ⟨fun later hlater => (more.forall_mem later hlater).2, ih⟩

end CarriedOut

/-- **Reads are safe**, whatever the data and whatever reads are tried. -/
theorem runAll_safe (data : Bytes) (reads : List Read) :
    CarriedOut (.start data) reads (runAll reads (.start data)) ∧
      (∀ outcome ∈ runAll reads (.start data), outcome.cursor.data = data) ∧
      (runAll reads (.start data)).Pairwise fun earlier later =>
        earlier.cursor.pos ≤ later.cursor.pos := by
  have hrun := carriedOut_runAll reads (.start data)
  exact ⟨hrun, fun outcome hmem => (hrun.forall_mem outcome hmem).1, hrun.pairwise⟩

/-- Too long a read stays where it is; a compressed integer that is cut off is read to the end. -/
example : (runAll [.int ⟨1, true⟩, .bytes 0xFFFFFFFFFFFFFFFF, .unsigned, .indexOf 0]
    (.start [0x80, 0xC0, 0x00])).map (·.cursor.pos) = [1, 1, 3, 3] := by decide

end Cursor

end PortablePdb
