import PortablePdb.Handle

/-!
# Local scopes and local variables

A scope is a range of a method's code in which some variables can be seen. A variable has a slot
in the method's frame and a name.

* `contains_iff`: a scope contains exactly the offsets from its start up to its stop.
* `stop_toNat`: the stop is start and length together, but never above the greatest offset.
-/

namespace PortablePdb

/-! ## Attributes -/

/-- The attributes of a local variable. -/
structure VariableAttributes where
  bits : UInt16
  deriving DecidableEq

namespace VariableAttributes

def debuggerHiddenBit : UInt16 := 0x0001

def knownBits : UInt16 := debuggerHiddenBit

def none : VariableAttributes := ⟨0⟩

/-- The attributes with these bits, unless some of them have no meaning. -/
def ofBits? (bits : UInt16) : Option VariableAttributes :=
  if bits &&& knownBits = bits then some ⟨bits⟩ else Option.none

def ofKnownBits (bits : UInt16) : VariableAttributes := ⟨bits &&& knownBits⟩

def isDebuggerHidden (attributes : VariableAttributes) : Bool :=
  attributes.bits &&& debuggerHiddenBit != 0

end VariableAttributes

/-! ## Variables -/

/-- A local variable of a method. -/
structure LocalVariable where
  attributes : VariableAttributes
  index : Nat
  name : String
  deriving DecidableEq

/-! ## Scopes -/

/-- A range of a method's code and the rows that belong to it. -/
structure LocalScope where
  method : MethodHandle
  importScope : Nat
  /-- The row id of the scope's first variable. They run up to the next scope's. -/
  variableList : Nat
  constantList : Nat
  start : UInt32
  length : UInt32
  deriving DecidableEq

namespace LocalScope

def lastOffset : Nat := 0xFFFFFFFF

/-- The offset behind the scope. A scope that would reach beyond the greatest offset stops
there. -/
def stop (scope : LocalScope) : UInt32 :=
  UInt32.ofNat (min (scope.start.toNat + scope.length.toNat) lastOffset)

def contains (scope : LocalScope) (offset : UInt32) : Bool :=
  scope.start ≤ offset && offset < scope.stop

theorem stop_toNat (scope : LocalScope) :
    scope.stop.toNat = min (scope.start.toNat + scope.length.toNat) lastOffset := by
  have : min (scope.start.toNat + scope.length.toNat) lastOffset < UInt32.size := by
    simp only [lastOffset, UInt32.size]
    omega
  exact Nat.mod_eq_of_lt this

/-- A scope ends before its stop, also where the stop had to be cut off at the last offset. -/
theorem contains_iff (scope : LocalScope) (offset : UInt32) :
    scope.contains offset = true ↔ scope.start ≤ offset ∧ offset < scope.stop := by
  simp [contains]

end LocalScope

end PortablePdb
