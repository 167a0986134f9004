import PortablePdb.Handle

/-!
# Sequence points

A sequence point says which range of a source document the code from some offset on belongs to.
Hidden points belong to no source range; they are stored with a line number that no source line
can have.

* `findByOffset`: the point with an offset.
* `WellFormed`: what all points have in common that can be stored.
-/

namespace PortablePdb

/-- A place in a source document. -/
structure Position where
  line : Nat
  column : Nat
  deriving DecidableEq

/-- The line number that marks hidden points; lines of source documents are below it. -/
def hiddenLine : Nat := 0xFEEFEE

def columnLimit : Nat := 0xFFFF

def offsetLimit : Nat := 0x100000000

def Position.Before (a b : Position) : Prop :=
  a.line < b.line ∨ a.line = b.line ∧ a.column < b.column

instance (a b : Position) : Decidable (a.Before b) := inferInstanceAs (Decidable (_ ∨ _))

def Position.InRange (position : Position) : Prop :=
  position.line < hiddenLine ∧ position.column < columnLimit

instance (position : Position) : Decidable position.InRange :=
  inferInstanceAs (Decidable (_ ∧ _))

/-- The source range of the code from an offset on. The range ends before `stop`. -/
structure SequencePoint where
  offset : Nat
  start : Position
  stop : Position
  isHidden : Bool
  document : Option DocumentHandle
  deriving DecidableEq

namespace SequencePoint

def hidden (offset : Nat) (document : DocumentHandle) : SequencePoint where
  offset := offset
  start := ⟨hiddenLine, 0⟩
  stop := ⟨hiddenLine, 0⟩
  isHidden := true
  document := some document

def visible (offset : Nat) (start stop : Position) (document : DocumentHandle) : SequencePoint where
  offset := offset
  start := start
  stop := stop
  isHidden := false
  document := some document

def findByOffset (points : List SequencePoint) (offset : Nat) : Option SequencePoint :=
  points.find? (·.offset == offset)

/-! ## Well-formed points -/

/-- A point is well formed if it has a document and is either hidden, with the marking position
twice, or covers a range of source text that is not empty. -/
def WellFormed (point : SequencePoint) : Prop :=
  ∃ document, point = hidden point.offset document ∨
    point = visible point.offset point.start point.stop document ∧
      point.start.InRange ∧ point.stop.InRange ∧ point.start.Before point.stop

theorem wellFormed_hidden (offset : Nat) (document : DocumentHandle) :
    (hidden offset document).WellFormed :=
  ⟨document, Or.inl rfl⟩

/-- A point is well formed if its range is in order and stays below the marking line. -/
theorem wellFormed_visible {offset : Nat} {start stop : Position} (document : DocumentHandle)
    (hstart : start.InRange) (hstop : stop.InRange) (hbefore : start.Before stop) :
    (visible offset start stop document).WellFormed :=
  ⟨document, Or.inr ⟨rfl, hstart, hstop, hbefore⟩⟩

end SequencePoint

end PortablePdb
