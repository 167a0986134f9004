import PortablePdb.Cursor
import PortablePdb.Text.Blank

/-!
# Tuple element names

The names of the elements of a tuple type, each ended by a zero byte. An element without a name
has a blank text in its place. Bytes behind the last zero byte are no name; they are left unread.

* `decode_append_zero`: names before a zero byte and names behind it are read independently.
* `readNames`: reads names one by one, from a position on.
-/

namespace PortablePdb.TupleNames

/-- The name of an element, if it has one. -/
abbrev Name := Option String

def segments (bytes : Bytes) : List Bytes := (bytes.splitOn 0).dropLast

def unterminated (bytes : Bytes) : Bytes := (bytes.splitOn 0).getLast (List.splitOn_ne_nil 0 bytes)

/-- The name that a segment holds: its text as it is, unless the text is blank. -/
def nameOf (segment : Bytes) : Name :=
  let text := Utf8.decode segment
  if Blank.isBlankText text then none else some text

def decode (bytes : Bytes) : List Name := (segments bytes).map nameOf

/-- Reads the next name and the zero byte that ends it, if a zero byte follows. -/
def readName? (cursor : Cursor) : Option (Except DebugError Name × Cursor) :=
  (cursor.indexOf 0).map fun length =>
    match cursor.readBytes length with
    | (.error e, behind) => (.error e, behind)
    | (.ok segment, behind) => (behind.readInt ⟨1, false⟩).map (·.map fun _ => nameOf segment) id

/-- A name is read with the zero byte that ends it, so reading a name makes progress even if it is
empty. -/
theorem remaining_of_readName? {cursor next : Cursor} {name : Name}
    (h : readName? cursor = some (.ok name, next)) : next.remaining < cursor.remaining := by
  obtain ⟨length, -, hread⟩ := Option.map_eq_some_iff.1 h
  split at hread
  · cases hread
  · rename_i segment behind hsegment
    rcases hzero : behind.readInt ⟨1, false⟩ with ⟨result, last⟩
    rw [hzero] at hread
    cases result with
    | error e => cases hread
    | ok value =>
      cases hread
      have hbehind := Cursor.remaining_of_readBytes hsegment
      have hlast : last.remaining + 1 = behind.remaining := Cursor.remaining_of_readInt hzero
      show last.remaining < cursor.remaining
      omega

/-- Reads names one by one until no zero byte follows. -/
def readNames (cursor : Cursor) : Except DebugError (List Name) × Cursor :=
  if cursor.hasMore then
    match _hname : readName? cursor with
    | none => (.ok [], cursor)
    | some (.error e, next) => (.error e, next)
    | some (.ok name, next) => (readNames next).map (·.map (name :: ·)) id
  else (.ok [], cursor)
termination_by cursor.remaining
decreasing_by exact remaining_of_readName? _hname

def encode (names : List Name) : Bytes :=
  names.flatMap fun name => (name.map Utf8.encode).getD [] ++ [0]

theorem splitOn_append (first second : Bytes) :
    (first ++ 0 :: second).splitOn 0 = first.splitOn 0 ++ second.splitOn 0 :=
  List.splitOn_append_cons_self first second

/-- A zero byte separates the segments before it from those behind it. -/
theorem segments_append (first second : Bytes) :
    segments (first ++ 0 :: second) = segments (first ++ [0]) ++ segments second := by
  have hne := List.splitOn_ne_nil 0 second
  simp only [segments, splitOn_append, List.dropLast_append_of_ne_nil hne]
  rw [List.dropLast_append_of_ne_nil (List.splitOn_ne_nil 0 [])]
  simp

/-- The zero byte ends a name, so those behind it do not depend on those before. -/
theorem decode_append_zero (first second : Bytes) :
    decode (first ++ 0 :: second) = decode (first ++ [0]) ++ decode second := by
  rw [decode, segments_append, List.map_append]
  rfl

end PortablePdb.TupleNames
