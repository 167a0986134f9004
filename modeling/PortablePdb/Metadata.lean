import PortablePdb.Document
import PortablePdb.Event
import PortablePdb.Metadata.Table
import PortablePdb.Method
import PortablePdb.Store

/-!
# Debug tables in memory

The tables of one module, and the store that they make up. The variables of a scope are the rows
of the variable table from the scope's first up to the first of the next scope, or up to the end
of the table.

* `store_sequencePoints`: the points of a method are those of its row.
* `store_customDebugRecord`: a record is found under its handle.
-/

namespace PortablePdb

/-- The debug tables of a module. -/
structure Metadata where
  blobs : BlobHeap
  documents : Table .document Document
  /-- Methods have rows by the row id of their definition, with gaps. -/
  methods : RowMap MethodRow
  scopes : Table .localScope LocalScope
  localVariables : Table .localVariable LocalVariable
  records : Table .customDebugInformation CustomDebug.Record

namespace Metadata

def empty : Metadata := ⟨.empty, .empty, ∅, .empty, .empty, .empty⟩

/-- The number of rows of a table; of tables that are not kept here it is zero. -/
def rowCount (metadata : Metadata) : TableId → Nat
  | .document => metadata.documents.size
  | .methodDebugInformation => metadata.methods.size
  | .localScope => metadata.scopes.size
  | .localVariable => metadata.localVariables.size
  | .customDebugInformation => metadata.records.size
  | _ => 0

def counts (metadata : Metadata) : TableCounts where
  documents := metadata.rowCount .document
  methods := metadata.rowCount .methodDebugInformation
  scopes := metadata.rowCount .localScope
  localVariables := metadata.rowCount .localVariable
  customDebugInformation := metadata.rowCount .customDebugInformation

/-- The token of the row of a method, which has the row id of the method. -/
def methodRowToken (method : MethodHandle) : Token :=
  ⟨TableId.methodDebugInformation.code, method.rid, method.rid_valid.2⟩

def methodRow? (metadata : Metadata) (method : MethodHandle) : Option MethodRow :=
  metadata.methods[methodRowToken method]?

/-- The row that a handle refers to, or the error that there is none. -/
def resolve {table : TableId} {Row : Type} (rows : Table table Row) (handle : Handle table) :
    Except DebugError Row :=
  match rows.get? handle with
  | some row => .ok row
  | none => .error (.invalidHandle handle.token)

/-- The row id behind the last variable of a scope: where the next scope's variables begin, or
the end of the table behind the last scope. -/
def variablesEnd (metadata : Metadata) (scope : LocalScopeHandle) : Nat :=
  match metadata.scopes.find? (.ofParts .localScope (scope.rid + 1)) with
  | some next => next.variableList
  | none => metadata.localVariables.size + 1

/-- The handles of the row ids from one up to another. -/
def handleRange {table : TableId} (start stop : Nat) : List (Handle table) :=
  (List.range' start (stop - start)).filterMap Handle.ofRid?

/-- The variables of a scope, or the error that they do not lie in the variable table. -/
def scopeVariables (metadata : Metadata) (scope : LocalScopeHandle) :
    Except DebugError (List LocalVariableHandle) := do
  let row ← resolve metadata.scopes scope
  let start := row.variableList
  let stop := metadata.variablesEnd scope
  if 0 < start ∧ start ≤ stop ∧ stop ≤ metadata.localVariables.size + 1 then
    pure (handleRange start stop)
  else throw (.malformed (.variableList scope start stop))

def methodScopes (metadata : Metadata) (method : MethodHandle) : List LocalScopeHandle :=
  metadata.scopes.entries.filterMap fun (scope, row) =>
    if row.method = method then some scope else none

/-- The sequence points of a method. A method without a row has none. -/
def methodPoints (metadata : Metadata) (method : MethodHandle) :
    Except DebugError (List SequencePoint) :=
  match metadata.methodRow? method with
  | some row => row.sequencePoints
  | none => .ok []

def store (metadata : Metadata) : Store
  | .sequencePoints method => metadata.methodPoints method
  | .localScopes method => .ok (metadata.methodScopes method)
  | .localVariables scope => metadata.scopeVariables scope
  | .localVariable handle => resolve metadata.localVariables handle
  | .documentName document => do
    let row ← resolve metadata.documents document
    row.resolveName metadata.blobs
  | .customDebugInformation => .ok metadata.records.handles
  | .customDebugRecord handle => resolve metadata.records handle

/-- Methods do not share a row of their table. -/
theorem methodRowToken_inj {method other : MethodHandle} :
    methodRowToken method = methodRowToken other ↔ method = other :=
  ⟨fun h => Handle.ext (congrArg Token.row h), congrArg methodRowToken⟩

theorem resolve_of_get? {table : TableId} {Row : Type} {rows : Table table Row}
    {handle : Handle table} {row : Row} (h : rows.get? handle = some row) :
    resolve rows handle = .ok row := by
  rw [resolve, h]

theorem store_sequencePoints {metadata : Metadata} {method : MethodHandle} {row : MethodRow}
    (h : metadata.methodRow? method = some row) :
    metadata.store (.sequencePoints method) = row.sequencePoints := by
  simp [store, methodPoints, h]

theorem store_customDebugRecord {metadata : Metadata} {handle : CustomDebugHandle}
    {row : CustomDebug.Record} (h : metadata.records.get? handle = some row) :
    metadata.store (.customDebugRecord handle) = .ok row := by
  simp [store, resolve, h]

end Metadata

end PortablePdb
