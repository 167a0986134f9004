import PortablePdb.Metadata

/-!
# Building debug tables

Tables are built step by step, and every step adds rows behind those that are there. Each step
gives the handles of its rows, or an error; what a failed step added before it failed stays.

* `applyAll_append`: building in two parts is building at once.
-/

namespace PortablePdb

/-- The handles of a new scope and of its variables, in the order in which they were declared. -/
structure ScopeHandles where
  scope : LocalScopeHandle
  localVariables : List LocalVariableHandle
  deriving DecidableEq

namespace Metadata

def addDocumentRow (metadata : Metadata) (row : Document) :
    Except DebugError DocumentHandle × Metadata :=
  match metadata.documents.add? row with
  | some (handle, documents) => (.ok handle, { metadata with documents := documents })
  | none => (.error (.malformed .rowLimit), metadata)

/-- Adds a document with this path, whose parts are kept in the heap. -/
def addDocument (metadata : Metadata) (path : String) :
    Except DebugError DocumentHandle × Metadata :=
  let (name, blobs) := DocumentName.encode path metadata.blobs
  let metadata := { metadata with blobs := blobs }
  match name with
  | .ok name => metadata.addDocumentRow ⟨name, none, [], none⟩
  | .error e => (.error e, metadata)

def addBlob (metadata : Metadata) (data : Bytes) : UInt32 × Metadata :=
  let (index, blobs) := metadata.blobs.add data
  (index, { metadata with blobs := blobs })

/-- Gives a method a row, in place of the one that it had. -/
def setMethodRow (metadata : Metadata) (method : MethodHandle) (row : MethodRow) : Metadata :=
  { metadata with methods := metadata.methods.insert (methodRowToken method) row }

/-- Adds rows to the variable table, as many as there is room for. -/
def addVariables : List LocalVariable → Table .localVariable LocalVariable →
    Except DebugError (List LocalVariableHandle) × Table .localVariable LocalVariable
  | [], rows => (.ok [], rows)
  | row :: more, rows =>
    match rows.add? row with
    | none => (.error (.malformed .rowLimit), rows)
    | some (handle, rows) =>
      let (handles, rows) := addVariables more rows
      (handles.map (handle :: ·), rows)

/-- The row of a scope that begins at an offset of a method, whose variables come next in the
variable table. -/
def nextScope (metadata : Metadata) (method : MethodHandle) (start length : UInt32) :
    LocalScope where
  method := method
  importScope := 0
  variableList := metadata.localVariables.size + 1
  constantList := 0
  start := start
  length := length

/-- Adds a scope and its variables. It is an error if the variable table is full, even if the
scope has no variables. -/
def addScope (metadata : Metadata) (method : MethodHandle) (start length : UInt32)
    (localVariables : List LocalVariable) : Except DebugError ScopeHandles × Metadata :=
  match metadata.scopes.add? (metadata.nextScope method start length),
      metadata.localVariables.nextHandle? with
  | some (scope, scopes), some _ =>
    let (handles, rows) := addVariables localVariables metadata.localVariables
    match handles with
    | .ok handles =>
      (.ok ⟨scope, handles⟩, { metadata with scopes := scopes, localVariables := rows })
    | .error e => (.error e, { metadata with localVariables := rows })
  | _, _ => (.error (.malformed .rowLimit), metadata)

def addRecord (metadata : Metadata) (row : CustomDebug.Record) :
    Except DebugError CustomDebugHandle × Metadata :=
  match metadata.records.add? row with
  | some (handle, records) => (.ok handle, { metadata with records := records })
  | none => (.error (.malformed .rowLimit), metadata)

end Metadata

/-! ## Steps -/

/-- A step of building tables. -/
inductive BuildStep
  | document (path : String)
  | documentRow (row : Document)
  | blob (data : Bytes)
  | method (method : MethodHandle) (document : Option DocumentHandle) (points : Bytes)
  | scope (method : MethodHandle) (start length : UInt32) (localVariables : List LocalVariable)
  | record (row : CustomDebug.Record)
  deriving DecidableEq

namespace BuildStep

/-- What a step gives if it succeeds. -/
abbrev Receipt : BuildStep → Type
  | document _ => DocumentHandle
  | documentRow _ => DocumentHandle
  | blob _ => UInt32
  | method .. => Unit
  | scope .. => ScopeHandles
  | record _ => CustomDebugHandle

def apply (metadata : Metadata) : (step : BuildStep) → Except DebugError step.Receipt × Metadata
  | .document path => metadata.addDocument path
  | .documentRow row => metadata.addDocumentRow row
  | .blob data =>
    let (index, metadata) := metadata.addBlob data
    (.ok index, metadata)
  | .method handle source points =>
    (.ok (), metadata.setMethodRow handle (.ofBlob source points))
  | .scope handle start length localVariables =>
    metadata.addScope handle start length localVariables
  | .record row => metadata.addRecord row

/-- What came of a step. -/
structure Outcome where
  step : BuildStep
  receipt : Except DebugError step.Receipt

/-- Carries out steps one after the other. A failed step does not stop the others. -/
def applyAll (metadata : Metadata) : List BuildStep → List Outcome × Metadata
  | [] => ([], metadata)
  | step :: more =>
    let (receipt, metadata) := step.apply metadata
    let (outcomes, metadata) := applyAll metadata more
    (⟨step, receipt⟩ :: outcomes, metadata)

theorem applyAll_append (metadata : Metadata) (first second : List BuildStep) :
    applyAll metadata (first ++ second) =
      ((applyAll metadata first).1 ++ (applyAll (applyAll metadata first).2 second).1,
        (applyAll (applyAll metadata first).2 second).2) := by
  induction first generalizing metadata with
  | nil => rfl
  | cons step more ih => simp [applyAll, ih]

end BuildStep

def Metadata.build (steps : List BuildStep) : Metadata := (BuildStep.applyAll .empty steps).2

end PortablePdb
