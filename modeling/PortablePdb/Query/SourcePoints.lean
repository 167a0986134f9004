import PortablePdb.Query

/-!
# Source ranges of a method

Finds the sequence points of a method with the names of their documents. The name of a document
is looked up where the document first occurs and remembered for the rest of the query.

* `sourcePoints`: the query.
-/

namespace PortablePdb

/-- A sequence point with the name of its document. -/
structure SourcePoint where
  offset : Nat
  start : Position
  stop : Position
  /-- The name of the document, or nothing if the point has none. -/
  document : String
  deriving DecidableEq

namespace SourcePoint

def isHidden (point : SourcePoint) : Bool := point.start.line == hiddenLine

def ofSequencePoint (point : SequencePoint) (name : String) : SourcePoint :=
  ⟨point.offset, point.start, point.stop, name⟩

/-- Hidden points are still told from others by the marking line, which no source line has. -/
theorem isHidden_ofSequencePoint {point : SequencePoint} (h : point.WellFormed) (name : String) :
    (ofSequencePoint point name).isHidden = point.isHidden := by
  obtain ⟨document, hhidden | ⟨hvisible, hstart, _, _⟩⟩ := h
  · rw [hhidden]
    rfl
  · rw [hvisible]
    simp only [isHidden, ofSequencePoint, SequencePoint.visible, beq_eq_false_iff_ne]
    exact Nat.ne_of_lt hstart.1

end SourcePoint

namespace Query

/-- The names of the documents met so far. -/
abbrev NameMemo := List (DocumentHandle × String)

/-- The name of a document, from the memo or else from the store, with the memo that holds it. -/
def documentName (memo : NameMemo) (document : DocumentHandle) : Query (String × NameMemo) :=
  match memo.lookup document with
  | some name => pure (name, memo)
  | none => do
    let name ← ask (.documentName document)
    pure (name, (document, name) :: memo)

/-- The name of the document of a point, or nothing if the point has none. -/
def pointName (memo : NameMemo) (point : SequencePoint) : Query (String × NameMemo) :=
  match point.document with
  | none => pure ("", memo)
  | some document => documentName memo document

/-- Finds the names of the documents of some points, point by point. -/
def resolveDocuments (memo : NameMemo) : List SequencePoint → Query (List SourcePoint)
  | [] => pure []
  | point :: more => do
    let (name, memo) ← pointName memo point
    let rest ← resolveDocuments memo more
    pure (.ofSequencePoint point name :: rest)

/-- The source ranges of a method, in the order in which the store gives its points. -/
def sourcePoints (method : MethodHandle) : Query (List SourcePoint) := do
  let points ← ask (.sequencePoints method)
  let resolved ← resolveDocuments [] points
  emit (.extractedPoints method resolved.length)
  pure resolved

end Query

end PortablePdb
