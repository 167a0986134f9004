import PortablePdb.CustomDebug.Value
import PortablePdb.Proofs.CustomDebug.ElementNames
import PortablePdb.Proofs.CustomDebug.FlagBits

/-!
# Values that one reading exhausts

Reading a value never fails: the reads that it is made of stay inside the bytes that remain, from
whichever position they start (`readValue_between`). What it leaves unread, if anything, is a tuple
element name without its zero byte. In such a rest, as in an empty one, there is nothing to read for
the kind (`read_unread`), so a second reading gives an empty value and stays where it is, and so
does every later one.

* `readsOnce`: the kind of an identifier, the value that is read first, and all values read later.
  The kind is found in the table of `Kind.ofGuid`, which is inverse to that of `WellKnown.guid`.
-/

namespace PortablePdb

open Cursor (between)

namespace Cursor

theorem readBytes_remaining (front bytes : Bytes) :
    (between front bytes).readBytes (between front bytes).remaining =
      (.ok bytes, between (front ++ bytes) []) := by
  have hread := readBytes_between front bytes []
  rwa [List.append_nil, ← rest_between front bytes, length_rest, rest_between] at hread

end Cursor

namespace CustomDebug.Value

/-- The empty value of the same variant. -/
def emptied : Value → Value
  | tupleElementNames _ => tupleElementNames []
  | dynamicLocalVariables _ => dynamicLocalVariables []
  | sourceLink _ => sourceLink ""
  | raw kind _ => raw kind []

/-! ## One reading -/

theorem readValue_between (kind : Kind) (front bytes : Bytes) :
    ∃ done, bytes = done ++ (read kind bytes).2 ∧
      readValue kind (between front bytes) =
        (.ok (decode kind bytes), between (front ++ done) (read kind bytes).2) := by
  have hrest := Cursor.readBytes_remaining front bytes
  unfold decode read readValue
  split
  · obtain ⟨done, hdone, hnames⟩ := TupleNames.readNames_between front bytes
    refine ⟨done, hdone, ?_⟩
    rw [hnames]
    rfl
  · refine ⟨bytes, (List.append_nil bytes).symm, ?_⟩
    rw [DynamicFlags.readFlags_between]
    rfl
  · refine ⟨bytes, (List.append_nil bytes).symm, ?_⟩
    rw [Cursor.readText, hrest]
    rfl
  · refine ⟨bytes, (List.append_nil bytes).symm, ?_⟩
    rw [hrest]
    rfl

/-- Only the kinds with a format of their own are decoded. -/
theorem decode_of_ne {kind : Kind} (hnames : kind ≠ .known .tupleElementNames)
    (hflags : kind ≠ .known .dynamicLocalVariables) (hlink : kind ≠ .known .sourceLink)
    (bytes : Bytes) : decode kind bytes = raw kind bytes := by
  unfold decode read
  split
  · exact absurd rfl hnames
  · exact absurd rfl hflags
  · exact absurd rfl hlink
  · rfl

/-- What is left unread is the tail of a blob of names, and holds none. -/
theorem unread_cases (kind : Kind) (bytes : Bytes) :
    (read kind bytes).2 = [] ∨ kind = .known .tupleElementNames ∧ 0 ∉ (read kind bytes).2 := by
  unfold read
  split
  · obtain ⟨front, -, htail, -⟩ := TupleNames.exists_front bytes
    exact Or.inr ⟨rfl, htail⟩
  · exact Or.inl rfl
  · exact Or.inl rfl
  · exact Or.inl rfl

/-! ## Several readings -/

theorem read_unread (kind : Kind) (bytes : Bytes) :
    read kind (read kind bytes).2 = ((decode kind bytes).emptied, (read kind bytes).2) := by
  rcases unread_cases kind bytes with hrest | ⟨rfl, htail⟩
  · rw [hrest]
    unfold decode read
    split
    · simp [emptied, TupleNames.decode_of_notMem, TupleNames.unterminated_of_notMem]
    · rfl
    · simp [emptied]
    · rfl
  · simp only [read] at htail ⊢
    rw [TupleNames.decode_of_notMem htail, TupleNames.unterminated_of_notMem htail]
    rfl

/-- Behind the first reading a cursor does not move any more. -/
theorem readValue_unread (kind : Kind) (front bytes : Bytes) :
    readValue kind (between front (read kind bytes).2) =
      (.ok (decode kind bytes).emptied, between front (read kind bytes).2) := by
  have hagain := read_unread kind bytes
  obtain ⟨done, hdone, hread⟩ := readValue_between kind front (read kind bytes).2
  rw [hagain] at hdone hread
  obtain rfl : done = [] := List.append_left_eq_self.1 hdone.symm
  rw [hread, List.append_nil, decode, hagain]

theorem readValues_of_unmoved {kind : Kind} {cursor : Cursor} {result : Except DebugError Value}
    (h : readValue kind cursor = (result, cursor)) (n : Nat) :
    readValues kind n cursor = List.replicate n (result, cursor) := by
  induction n with
  | zero => rfl
  | succ n ih => rw [readValues, h, ih, List.replicate_succ]

theorem readMany_unread (kind : Kind) (bytes : Bytes) (n : Nat) :
    readMany kind n (read kind bytes).2 = List.replicate n (decode kind bytes).emptied := by
  induction n with
  | zero => rfl
  | succ n ih => rw [readMany_succ, decode, read_unread, ih, List.replicate_succ]

/-- A name without a zero byte stays unread however often it is tried. -/
example : readMany (.known .tupleElementNames) 3 [0x61, 0, 0x62] =
    [tupleElementNames [some "a"], tupleElementNames [], tupleElementNames []] := by decide +kernel

theorem readValues_between (kind : Kind) (front bytes : Bytes) :
    ∃ done, bytes = done ++ (read kind bytes).2 ∧ ∀ n,
      readValues kind (n + 1) (between front bytes) =
        (.ok (decode kind bytes), between (front ++ done) (read kind bytes).2) ::
          List.replicate n
            (.ok (decode kind bytes).emptied, between (front ++ done) (read kind bytes).2) := by
  obtain ⟨done, hdone, hread⟩ := readValue_between kind front bytes
  refine ⟨done, hdone, ?_⟩
  intro n
  rw [readValues, hread, readValues_of_unmoved (readValue_unread kind (front ++ done) bytes)]

/-- How the value of a record with an identifier is read. -/
structure ReadsOnce (guid : Guid) (data : Bytes) : Prop where
  /-- Finding the kind of an identifier loses nothing. -/
  guid_kind : (Kind.ofGuid guid).guid = guid
  /-- The two tables of well-known identifiers are inverse: the kind is a well-known one if and only
  if the identifier is the one of this kind. -/
  known_iff : ∀ kind, Kind.ofGuid guid = .known kind ↔ guid = kind.guid
  /-- Nor does reading a value of the kind. -/
  guid_value : (decode (.ofGuid guid) data).kind.guid = guid
  /-- A value of a kind without a format of its own is kept as it is. -/
  undecoded : guid ≠ WellKnown.tupleElementNames.guid →
    guid ≠ WellKnown.dynamicLocalVariables.guid → guid ≠ WellKnown.sourceLink.guid →
      decode (.ofGuid guid) data = raw (.ofGuid guid) data
  /-- The first reading takes everything, an unterminated name apart. All later ones find an empty
  value of the same variant, and do not move. -/
  readings : ∃ behind : Cursor, behind.data = data ∧
    (behind.rest = [] ∨ guid = WellKnown.tupleElementNames.guid ∧ 0 ∉ behind.rest) ∧
    ∀ n, readValues (.ofGuid guid) (n + 1) (.start data) =
      (.ok (decode (.ofGuid guid) data), behind) ::
        List.replicate n (.ok (decode (.ofGuid guid) data).emptied, behind)
  /-- The values are also those of readings that do not tell their positions. -/
  values : ∀ n, (readValues (.ofGuid guid) n (.start data)).map Prod.fst =
    (readMany (.ofGuid guid) n data).map .ok

/-- **One reading exhausts a value**, whatever its identifier and its bytes. -/
theorem readsOnce (guid : Guid) (data : Bytes) : ReadsOnce guid data := by
  obtain ⟨done, hdata, hreadings⟩ := readValues_between (.ofGuid guid) [] data
  refine ⟨Kind.guid_ofGuid guid, fun _ => Kind.ofGuid_eq_known_iff, guid_kind_decode guid data,
    ?_, ?_, ?_⟩
  · intro hnames hflags hlink
    exact decode_of_ne (mt Kind.ofGuid_eq_known_iff.1 hnames)
      (mt Kind.ofGuid_eq_known_iff.1 hflags) (mt Kind.ofGuid_eq_known_iff.1 hlink) data
  · refine ⟨between done (read (.ofGuid guid) data).2, hdata.symm, ?_, hreadings⟩
    rw [Cursor.rest_between]
    exact (unread_cases (.ofGuid guid) data).imp_right
      (And.imp_left Kind.ofGuid_eq_known_iff.1)
  · intro n
    cases n with
    | zero => rfl
    | succ n =>
      have hstart : readValues (.ofGuid guid) (n + 1) (.start data) = _ := hreadings n
      rw [hstart, readMany_succ, readMany_unread]
      simp

end CustomDebug.Value

end PortablePdb
