import PortablePdb.CustomDebug.DynamicFlags
import PortablePdb.CustomDebug.Kind
import PortablePdb.CustomDebug.TupleNames

/-!
# Values of custom debug information

What the value of a record means depends on its kind. Values of kinds whose format is not known
here are kept as bytes. Every byte string is a value of every kind.

* `guid_kind_decode`: a decoded value keeps the identifier of its kind.
* `readValue`: reads a value from a position on.
-/

namespace PortablePdb.CustomDebug

/-- A decoded value. -/
inductive Value
  | tupleElementNames (names : List TupleNames.Name)
  | dynamicLocalVariables (flags : List Bool)
  | sourceLink (document : String)
  | raw (kind : Kind) (data : Bytes)
  deriving DecidableEq

namespace Value

def kind : Value → Kind
  | tupleElementNames _ => .known .tupleElementNames
  | dynamicLocalVariables _ => .known .dynamicLocalVariables
  | sourceLink _ => .known .sourceLink
  | raw kind _ => kind

/-- The value of a kind that some bytes hold, and the bytes that are left unread. Only tuple
element names leave any. -/
def read (kind : Kind) (bytes : Bytes) : Value × Bytes :=
  match kind with
  | .known .tupleElementNames => (tupleElementNames (TupleNames.decode bytes),
      TupleNames.unterminated bytes)
  | .known .dynamicLocalVariables => (dynamicLocalVariables (DynamicFlags.decode bytes), [])
  | .known .sourceLink => (sourceLink (Utf8.decode bytes), [])
  | kind => (raw kind bytes, [])

def decode (kind : Kind) (bytes : Bytes) : Value := (read kind bytes).1

/-- The values of the first `n` readings, each from where the last one stopped. -/
def readMany (kind : Kind) : Nat → Bytes → List Value
  | 0, _ => []
  | n + 1, bytes =>
    let (value, unread) := read kind bytes
    value :: readMany kind n unread

theorem readMany_succ (kind : Kind) (n : Nat) (bytes : Bytes) :
    readMany kind (n + 1) bytes = decode kind bytes :: readMany kind n (read kind bytes).2 := rfl

/-- Reads a value of a kind from a position on. Each kind has its own reads, which may fail. -/
def readValue (kind : Kind) (cursor : Cursor) : Except DebugError Value × Cursor :=
  match kind with
  | .known .tupleElementNames => (TupleNames.readNames cursor).map (·.map tupleElementNames) id
  | .known .dynamicLocalVariables =>
    (DynamicFlags.readFlags cursor).map (·.map dynamicLocalVariables) id
  | .known .sourceLink => (cursor.readText cursor.remaining).map (·.map sourceLink) id
  | kind => (cursor.readBytes cursor.remaining).map (·.map (raw kind)) id

/-- Reads a value `n` times, each time from where the last reading stopped, and gives what came of
each with the position behind it. -/
def readValues (kind : Kind) : Nat → Cursor → List (Except DebugError Value × Cursor)
  | 0, _ => []
  | n + 1, cursor =>
    let result := readValue kind cursor
    result :: readValues kind n result.2

/-- A value tells the kind that it was decoded for. -/
theorem kind_decode (kind : Kind) (bytes : Bytes) : (decode kind bytes).kind = kind := by
  unfold decode read
  split <;> rfl

theorem guid_kind_decode (guid : Guid) (bytes : Bytes) :
    (decode (Kind.ofGuid guid) bytes).kind.guid = guid := by
  rw [kind_decode, Kind.guid_ofGuid]

end Value

end PortablePdb.CustomDebug
