import PortablePdb.Handle

/-!
# Errors

What can go wrong while debug information is read, written or looked up, as causes. The wording
of each cause is in one place, `Malformation.message` and `DebugError.message`; the place in a
source text where an error was noticed is no part of it and is added only where an error is
described in full.
-/

namespace PortablePdb

/-- A reason why data is not in its format, or why a value cannot be put into it. -/
inductive Malformation
  | leadByte (lead : UInt8)
  | uintTooLarge (value : Nat)
  | intOutOfRange (value : Int)
  | separator (byte : UInt8)
  | documentRow (row : Nat)
  | line (value : Int)
  | column (value : Int)
  | offsetOverflow
  | variableList (scope : LocalScopeHandle) (start stop : Nat)
  | rowLimit
  /-- A reason given by a source of debug information outside this library. -/
  | reported (text : String)
  deriving DecidableEq

def Malformation.message : Malformation → String
  | .leadByte lead => s!"Invalid compressed uint - {lead.toNat}"
  | .uintTooLarge value =>
    s!"Value too large for a compressed uint - 0x{Hexadecimal.ofNat value}"
  | .intOutOfRange value => s!"Value out of range for a compressed int - {value}"
  | .separator byte =>
    s!"Invalid document name separator - 0x{Hexadecimal.padded 2 byte.toNat}"
  | .documentRow row => s!"Invalid document row in sequence points - {row}"
  | .line value => s!"Sequence point line out of range - {value}"
  | .column value => s!"Sequence point column out of range - {value}"
  | .offsetOverflow => "Sequence point IL offset overflow"
  | .variableList scope start stop =>
    s!"Invalid variable list of {scope.render} - {start}..{stop}"
  | .rowLimit => "Table row limit reached"
  | .reported text => text

/-- An error of reading, writing or looking up debug information. -/
inductive DebugError
  | malformed (reason : Malformation)
  | outOfBounds
  | invalidHandle (token : Token)
  | empty
  deriving DecidableEq

/-- A place in a source text. -/
structure SourcePlace where
  file : String
  line : Nat

namespace DebugError

/-- The wording of an error, without the place where it was noticed. -/
def message : DebugError → String
  | malformed reason => reason.message
  | outOfBounds => "Out of Bound read would have occurred"
  | invalidHandle token => s!"Handle does not resolve to a valid row - {token.render}"
  | empty => "Provided input was empty"

/-- The full text of an error. Errors in the data also show where they were noticed. -/
def describe (place : SourcePlace) : DebugError → String
  | malformed reason => s!"Malformed - {place.file}:{place.line}: {reason.message}"
  | outOfBounds => s!"{message outOfBounds} - {place.file}:{place.line}"
  | invalidHandle token => message (invalidHandle token)
  | empty => message empty

end DebugError

instance {α : Type} [DecidableEq α] : DecidableEq (Except DebugError α)
  | .ok a, .ok b => decidable_of_iff (a = b) (by simp)
  | .error a, .error b => decidable_of_iff (a = b) (by simp)
  | .ok _, .error _ => isFalse nofun
  | .error _, .ok _ => isFalse nofun

/-- A computation in two parts succeeds exactly if both parts do. -/
theorem bind_eq_ok_iff {α β : Type} {first : Except DebugError α}
    {second : α → Except DebugError β} {b : β} :
    (first >>= second) = .ok b ↔ ∃ a, first = .ok a ∧ second a = .ok b := by
  cases first with
  | error e => simp [bind, Except.bind]
  | ok a => simp [bind, Except.bind]

/-- It fails with the error of the first part that fails. -/
theorem bind_eq_error_iff {α β : Type} {first : Except DebugError α}
    {second : α → Except DebugError β} {e : DebugError} :
    (first >>= second) = .error e ↔
      first = .error e ∨ ∃ a, first = .ok a ∧ second a = .error e := by
  cases first with
  | error e' => simp [bind, Except.bind]
  | ok a => simp [bind, Except.bind]

theorem map_eq_ok_iff {α β : Type} {computation : Except DebugError α} {f : α → β} {b : β} :
    computation.map f = .ok b ↔ ∃ a, computation = .ok a ∧ f a = b := by
  cases computation with
  | error e => simp [Except.map]
  | ok a => simp [Except.map]

/-- Mapping a computation does not change whether and how it fails. -/
theorem map_eq_error_iff {α β : Type} {computation : Except DebugError α} {f : α → β}
    {e : DebugError} : computation.map f = .error e ↔ computation = .error e := by
  cases computation with
  | error e => simp [Except.map]
  | ok a => simp [Except.map]

/-- The handle of the row a token names, or an error if the row is not one of this table. -/
def Token.toHandle {table : TableId} (token : Token) : Except DebugError (Handle table) :=
  match Handle.ofToken? token with
  | some handle => .ok handle
  | none => .error (.invalidHandle token)

theorem Handle.toHandle_token {table : TableId} (handle : Handle table) :
    handle.token.toHandle = .ok handle := by
  simp [Token.toHandle]

end PortablePdb
