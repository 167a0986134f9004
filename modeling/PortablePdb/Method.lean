import PortablePdb.SequencePoint.Decoder

/-!
# Debug information of a method

A row of the method table says where the sequence points of a method are, and in which document
they lie if they all lie in one.
-/

namespace PortablePdb

/-- What is known of a method's source ranges. -/
structure MethodRow where
  /-- The document of all points; absent if the points lie in several. -/
  document : Option DocumentHandle
  points : Option Bytes
  deriving DecidableEq

namespace MethodRow

/-- The row of a method with these encoded points; an empty blob counts as absent. -/
def ofBlob (document : Option DocumentHandle) (blob : Bytes) : MethodRow where
  document := document
  points := if blob.isEmpty then none else some blob

def sequencePoints (row : MethodRow) : Except DebugError (List SequencePoint) :=
  match row.points with
  | some blob => SequencePoint.decode row.document blob
  | none => .ok []

/-- An absent blob gives the same points as an empty one, namely none. -/
theorem sequencePoints_ofBlob (document : Option DocumentHandle) (blob : Bytes) :
    (ofBlob document blob).sequencePoints = SequencePoint.decode document blob := by
  cases blob with
  | nil => rfl
  | cons byte rest => rfl

end MethodRow

end PortablePdb
