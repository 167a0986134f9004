import PortablePdb.CustomDebug.Kind
import PortablePdb.Handle

/-!
# Custom debug records

A row of the custom debug information table attaches a value of some kind to a row of any table.

* `parentTable?_of_parent`: a record whose parent is a row of a table is a record of that table.
-/

namespace PortablePdb.CustomDebug

/-- A value attached to a row. -/
structure Record where
  parent : Token
  guid : Option Guid
  value : Bytes
  deriving DecidableEq

namespace Record

/-- The table of the parent, if the parent is a row of a known table. -/
def parentTable? (record : Record) : Option TableId :=
  if record.parent.isNil then none else record.parent.tableId?

def kind? (record : Record) : Option Kind := record.guid.map Kind.ofGuid

theorem parentTable?_of_parent {record : Record} {table : TableId} {handle : Handle table}
    (h : record.parent = handle.token) : record.parentTable? = some table := by
  have hrow : handle.rid ≠ 0 := Nat.ne_of_gt handle.rid_valid.1
  rw [parentTable?, h]
  simp [Token.isNil, Token.tableId?, Handle.token, hrow, TableId.ofCode?_code]

end Record

end PortablePdb.CustomDebug
