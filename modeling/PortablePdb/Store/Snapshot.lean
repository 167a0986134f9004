import PortablePdb.Store

/-!
# Snapshots

A snapshot is a store given by a list of its answers. A method that is not listed has neither
points nor scopes; any other row that is not listed does not exist.

* `store`: the answers of a snapshot.
-/

namespace PortablePdb

/-- The answers of a store, each of which may be an error. -/
structure Snapshot where
  points : List (MethodHandle × Except DebugError (List SequencePoint))
  scopes : List (MethodHandle × Except DebugError (List LocalScopeHandle))
  scopeVariables : List (LocalScopeHandle × Except DebugError (List LocalVariableHandle))
  localVariables : List (LocalVariableHandle × Except DebugError LocalVariable)
  documents : List (DocumentHandle × Except DebugError String)
  recordList : Except DebugError (List CustomDebugHandle)
  records : List (CustomDebugHandle × Except DebugError CustomDebug.Record)

namespace Snapshot

/-- The answer listed for a row, or the error that there is no such row. -/
def listed {table : TableId} {α : Type} (answers : List (Handle table × Except DebugError α))
    (handle : Handle table) : Except DebugError α :=
  (answers.lookup handle).getD (.error (.invalidHandle handle.token))

def store (snapshot : Snapshot) : Store
  | .sequencePoints method => (snapshot.points.lookup method).getD (.ok [])
  | .localScopes method => (snapshot.scopes.lookup method).getD (.ok [])
  | .localVariables scope => listed snapshot.scopeVariables scope
  | .localVariable handle => listed snapshot.localVariables handle
  | .documentName document => listed snapshot.documents document
  | .customDebugInformation => snapshot.recordList
  | .customDebugRecord handle => listed snapshot.records handle

end Snapshot

end PortablePdb
