import Mathlib.Data.Finset.Card
import Mathlib.Data.List.Induction
import PortablePdb.Proofs.Document.Naming
import PortablePdb.Proofs.Metadata.ScopeRuns

/-!
# The tables as a log of the steps

The tables hold what the steps added, in the order of the steps. Rows are kept under tokens, but
since each new row gets the next row id the tables are logs nonetheless (`log_add?`). A part of the
tables that every step extends by what came of it holds in the end what came of all steps
(`view_build`); that is how the handles of documents and the rows of records are told. The rows of
methods are the one part in which a step can replace what another one left, so the last step for a
method counts (`methodRow?_build`).
-/

namespace PortablePdb

/-! ## The heap -/

namespace BlobHeap

/-- The indices that some data get one after the other in a heap of this size: the next ones, and 0
for empty data. -/
def indicesFrom (size : Nat) : List Bytes → List Nat
  | [] => []
  | data :: more =>
    if data = [] then 0 :: indicesFrom size more else (size + 1) :: indicesFrom (size + 1) more

/-- The heap is the list of all that was added, less what is empty. -/
theorem toList_add (heap : BlobHeap) (data : Bytes) :
    (heap.add data).2.blobs.toList = heap.blobs.toList ++ [data].filter (· ≠ []) := by
  unfold add
  split
  · rename_i h
    simp [h]
  · rename_i h
    simp [h]

theorem indicesFrom_cons {heap : BlobHeap} {data : Bytes}
    (h : data ≠ [] → heap.size < 0xFFFFFFFF) (more : List Bytes) :
    indicesFrom heap.size (data :: more) =
      (heap.add data).1.toNat :: indicesFrom (heap.add data).2.size more := by
  rw [indicesFrom, size_add, toNat_fst_add_of_next h]
  by_cases hdata : data = []
  · rw [if_pos hdata, if_pos hdata, if_pos hdata, Nat.add_zero]
  · rw [if_neg hdata, if_neg hdata, if_neg hdata]

/-- Data are found under the indices that they got. -/
theorem get?_indicesFrom {heap : BlobHeap} {front : List Bytes} (data : List Bytes)
    (h : heap.blobs.toList = front ++ data.filter (· ≠ [])) :
    List.Forall₂ (fun index datum => heap.get? index = some datum)
      (indicesFrom front.length data) data := by
  induction data generalizing front with
  | nil => exact .nil
  | cons datum more ih =>
    by_cases hdatum : datum = []
    · rw [indicesFrom, if_pos hdatum]
      refine .cons (by rw [hdatum, get?_zero]) (ih ?_)
      simpa [hdatum] using h
    · have hmore : heap.blobs.toList = (front ++ [datum]) ++ more.filter (· ≠ []) := by
        simpa [hdatum] using h
      rw [indicesFrom, if_neg hdatum]
      refine .cons ?_ ?_
      · rw [get?, ← Array.getElem?_toList, hmore]
        simp
      · have := ih hmore
        rwa [List.length_append, List.length_singleton] at this

end BlobHeap

namespace DocumentName

/-- The parts of a path as they are kept in the heap. -/
def partData (path : String) : List Bytes :=
  (split (separatorOf path.toList) path.toList).map (·.flatMap String.utf8EncodeChar)

theorem partData_ne_nil (path : String) : partData path ≠ [] := by
  unfold partData split
  split
  · simp
  · simp [List.splitOn_ne_nil]

/-- The parts that are kept are the first ones, up to one whose index cannot be stored. -/
theorem toList_storeParts (parts : List Part) (heap : BlobHeap) :
    ∃ kept, kept <+: parts.map (·.flatMap String.utf8EncodeChar) ∧
      (storeParts parts heap).2.blobs.toList = heap.blobs.toList ++ kept.filter (· ≠ []) ∧
      ∀ indices, (storeParts parts heap).1 = .ok indices →
        kept = parts.map (·.flatMap String.utf8EncodeChar) ∧
          List.Forall₂ (fun index stored => Compressed.ofNat index = .ok stored)
            (BlobHeap.indicesFrom heap.size kept) indices := by
  induction parts generalizing heap with
  | nil =>
    refine ⟨[], List.prefix_rfl, by simp [storeParts], ?_⟩
    intro indices h
    cases h
    exact ⟨rfl, .nil⟩
  | cons part more ih =>
    have hlist := heap.toList_add (part.flatMap String.utf8EncodeChar)
    rcases hadd : heap.add (part.flatMap String.utf8EncodeChar) with ⟨index, next⟩
    simp only [hadd] at hlist
    simp only [storeParts, hadd]
    cases hstored : Compressed.ofNat index.toNat with
    | error e =>
      refine ⟨[part.flatMap String.utf8EncodeChar], ?_, hlist, ?_⟩
      · exact List.cons_prefix_cons.2 ⟨rfl, List.nil_prefix⟩
      · intro indices h
        cases h
    | ok stored =>
      obtain ⟨kept, hprefix, hkept, hall⟩ := ih next
      refine ⟨part.flatMap String.utf8EncodeChar :: kept, ?_, ?_, ?_⟩
      · exact List.cons_prefix_cons.2 ⟨rfl, hprefix⟩
      · rw [hkept, hlist, List.append_assoc, ← List.filter_append, List.singleton_append]
      · intro indices h
        obtain ⟨rest, hrest, rfl⟩ := map_eq_ok_iff.1 h
        obtain ⟨rfl, hvalues⟩ := hall rest hrest
        refine ⟨rfl, ?_⟩
        have hindex : Compressed.ofNat (heap.add (part.flatMap String.utf8EncodeChar)).1.toNat =
            .ok stored := by
          rw [hadd]
          exact hstored
        rw [BlobHeap.indicesFrom_cons (BlobHeap.size_lt_of_stored hindex), hadd]
        exact .cons hstored hvalues

/-- Encoding a path keeps its parts in order, up to the one that is refused, if any is. -/
theorem toList_encode (path : String) (heap : BlobHeap) :
    ∃ kept, kept <+: partData path ∧
      (encode path heap).2.blobs.toList = heap.blobs.toList ++ kept.filter (· ≠ []) ∧
      ∀ name, (encode path heap).1 = .ok name → kept = partData path ∧
        ∃ stored, List.Forall₂ (fun index stored => Compressed.ofNat index = .ok stored)
          (BlobHeap.indicesFrom heap.size kept) stored ∧
          name = separatorOf path.toList :: stored.flatMap Compressed.bytes := by
  rw [fst_encode, snd_encode]
  obtain ⟨kept, hprefix, hkept, hall⟩ :=
    toList_storeParts (split (separatorOf path.toList) path.toList) heap
  refine ⟨kept, hprefix, hkept, ?_⟩
  intro name hname
  obtain ⟨stored, hstored, rfl⟩ := map_eq_ok_iff.1 hname
  obtain ⟨hparts, hindices⟩ := hall stored hstored
  exact ⟨hparts, stored, hindices, rfl⟩

end DocumentName

/-! ## Steps and what came of them -/

namespace BuildStep

/-- Each step extends what the tables show of themselves by what came of it. -/
theorem view_build {α : Type} (view : Metadata → List α) (added : Outcome → Option α)
    (hempty : view .empty = [])
    (hstep : ∀ metadata step, view (step.apply metadata).2 =
      view metadata ++ (added ⟨step, (step.apply metadata).1⟩).toList) (steps : List BuildStep) :
    view (.build steps) = (outcomes steps).filterMap added := by
  induction steps using List.reverseRecOn with
  | nil => exact hempty
  | append_singleton steps step ih =>
    rw [Metadata.build_concat, outcomes_concat, List.filterMap_append, ← ih, hstep]
    cases hadded : added ⟨step, (step.apply (.build steps)).1⟩ with
    | none => simp [hadded]
    | some a => simp [hadded]

/-- The data that a step gives to the heap, in order. -/
def heapData : BuildStep → List Bytes
  | .document path => DocumentName.partData path
  | .blob data => [data]
  | _ => []

def isDocument : BuildStep → Bool
  | .document _ => true
  | .documentRow _ => true
  | _ => false

/-- The method whose row a step sets. -/
def method? : BuildStep → Option MethodHandle
  | .method owner _ _ => some owner
  | _ => none

/-- The row that a step sets for a method; an empty blob counts as absent. -/
def methodRow? (method : MethodHandle) : BuildStep → Option MethodRow
  | .method owner source points =>
    if owner = method then some ⟨source, if points = [] then none else some points⟩ else none
  | _ => none

/-- The record that a step is to add. -/
def record? : BuildStep → Option CustomDebug.Record
  | .record row => some row
  | _ => none

namespace Outcome

/-- The handle of the document that a step added. -/
def document? : Outcome → Option DocumentHandle
  | ⟨.document _, .ok handle⟩ => some handle
  | ⟨.documentRow _, .ok handle⟩ => some handle
  | _ => none

/-- The record that a step added, with its handle. -/
def record? : Outcome → Option (CustomDebugHandle × CustomDebug.Record)
  | ⟨.record row, .ok handle⟩ => some (handle, row)
  | _ => none

end Outcome

/-- The documents that some steps added, in the order of the steps. -/
def addedDocuments (steps : List BuildStep) : List DocumentHandle :=
  (outcomes steps).filterMap (·.document?)

/-- The records that some steps added, in the order of the steps. -/
def addedRecords (steps : List BuildStep) : List (CustomDebugHandle × CustomDebug.Record) :=
  (outcomes steps).filterMap (·.record?)

/-- Each of some steps succeeds. -/
def AllSucceed (steps : List BuildStep) : Prop :=
  ∀ outcome ∈ outcomes steps, outcome.receipt.isOk = true

instance (steps : List BuildStep) : Decidable (AllSucceed steps) :=
  inferInstanceAs (Decidable (∀ outcome ∈ outcomes steps, outcome.receipt.isOk = true))

theorem isOk_iff {α : Type} {outcome : Except DebugError α} :
    outcome.isOk = true ↔ ∃ a, outcome = .ok a := by
  cases outcome with
  | ok a => simp [Except.isOk, Except.toBool]
  | error e => simp [Except.isOk, Except.toBool]

theorem AllSucceed.of_concat {steps : List BuildStep} {step : BuildStep}
    (h : AllSucceed (steps ++ [step])) :
    AllSucceed steps ∧ ∃ receipt, (step.apply (.build steps)).1 = .ok receipt := by
  rw [AllSucceed, outcomes_concat] at h
  constructor
  · exact fun outcome houtcome => h outcome (List.mem_append_left _ houtcome)
  · exact isOk_iff.1 (h _ (List.mem_append_right _ (List.mem_singleton.2 rfl)))

end BuildStep

/-! ## What a step changes -/

namespace Metadata

section

variable (metadata : Metadata)

/-- What steps of other kinds leave as it is. -/
structure Untouched (step : BuildStep) (after : Metadata) : Prop where
  documents : step.isDocument = false → after.documents = metadata.documents
  blobs : step.heapData = [] → after.blobs = metadata.blobs
  methods : step.method? = none → after.methods = metadata.methods
  records : step.record? = none → after.records = metadata.records

/-- A step leaves alone the tables that it is not about. -/
theorem untouched_apply (step : BuildStep) :
    metadata.Untouched step (step.apply metadata).2 := by
  cases step with
  | document path =>
    obtain ⟨blobs, documents, h⟩ := addDocument_changes metadata path
    rw [BuildStep.apply, h]
    have hparts := DocumentName.partData_ne_nil path
    exact ⟨fun hno => (by cases hno), fun hno => absurd hno hparts, fun _ => rfl, fun _ => rfl⟩
  | documentRow row =>
    obtain ⟨documents, h⟩ := addDocumentRow_changes metadata row
    rw [BuildStep.apply, h]
    exact ⟨fun hno => (by cases hno), fun _ => rfl, fun _ => rfl, fun _ => rfl⟩
  | blob data => exact ⟨fun _ => rfl, fun hno => (by cases hno), fun _ => rfl, fun _ => rfl⟩
  | method owner source points =>
    exact ⟨fun _ => rfl, fun _ => rfl, fun hno => (by cases hno), fun _ => rfl⟩
  | scope owner start length localVariables =>
    obtain ⟨scopes, rows, h⟩ := addScope_changes metadata owner start length localVariables
    rw [BuildStep.apply, h]
    exact ⟨fun _ => rfl, fun _ => rfl, fun _ => rfl, fun _ => rfl⟩
  | record row =>
    obtain ⟨records, h⟩ := addRecord_changes metadata row
    rw [BuildStep.apply, h]
    exact ⟨fun _ => rfl, fun _ => rfl, fun _ => rfl, fun hno => (by cases hno)⟩

theorem handles_addDocumentRow (row : Document) :
    (metadata.addDocumentRow row).2.documents.handles =
      metadata.documents.handles ++ (metadata.addDocumentRow row).1.toOption.toList := by
  unfold addDocumentRow
  split
  · rename_i handle documents hadd
    exact Table.handles_add? hadd
  · exact (List.append_nil _).symm

theorem handles_addDocument (path : String) :
    (metadata.addDocument path).2.documents.handles =
      metadata.documents.handles ++ (metadata.addDocument path).1.toOption.toList := by
  simp only [addDocument]
  split
  · exact handles_addDocumentRow _ _
  · exact (List.append_nil _).symm

theorem get?_of_addDocumentRow {row : Document} {handle : DocumentHandle}
    (h : (metadata.addDocumentRow row).1 = .ok handle) :
    (metadata.addDocumentRow row).2.documents.get? handle = some row := by
  unfold addDocumentRow at h ⊢
  split
  · rename_i added documents hadd
    rw [hadd] at h
    cases h
    exact Table.get?_add hadd
  · rename_i hadd
    rw [hadd] at h
    cases h

variable {metadata} in
/-- The row of a document that was added by its path. -/
theorem row_of_addDocument {path : String} {handle : DocumentHandle}
    (h : (metadata.addDocument path).1 = .ok handle) :
    ∃ name, (DocumentName.encode path metadata.blobs).1 = .ok name ∧
      (metadata.addDocument path).2.documents.get? handle = some ⟨name, none, [], none⟩ := by
  cases hname : (DocumentName.encode path metadata.blobs).1 with
  | error e =>
    simp only [addDocument, hname] at h
    cases h
  | ok name =>
    simp only [addDocument, hname] at h ⊢
    exact ⟨name, rfl, get?_of_addDocumentRow _ h⟩

/-- Both kinds of steps about documents add to the same table. -/
theorem handles_documents_apply (step : BuildStep) :
    (step.apply metadata).2.documents.handles =
      metadata.documents.handles ++
        (BuildStep.Outcome.document? ⟨step, (step.apply metadata).1⟩).toList := by
  cases step with
  | document path =>
    rw [BuildStep.apply, handles_addDocument]
    cases (metadata.addDocument path).1 with
    | ok handle => rfl
    | error e => rfl
  | documentRow row =>
    rw [BuildStep.apply, handles_addDocumentRow]
    cases (metadata.addDocumentRow row).1 with
    | ok handle => rfl
    | error e => rfl
  | _ =>
    rw [(untouched_apply metadata _).documents rfl]
    exact (List.append_nil _).symm

theorem entries_addRecord (row : CustomDebug.Record) :
    (metadata.addRecord row).2.records.entries =
      metadata.records.entries ++
        (BuildStep.Outcome.record? ⟨.record row, (metadata.addRecord row).1⟩).toList := by
  unfold addRecord
  split
  · rename_i handle records hadd
    exact Table.entries_add? hadd
  · exact (List.append_nil _).symm

theorem entries_records_apply (step : BuildStep) :
    (step.apply metadata).2.records.entries =
      metadata.records.entries ++
        (BuildStep.Outcome.record? ⟨step, (step.apply metadata).1⟩).toList := by
  cases step with
  | record row => exact entries_addRecord metadata row
  | _ =>
    rw [(untouched_apply metadata _).records rfl]
    exact (List.append_nil _).symm

/-- The last step about a method wins. -/
theorem methodRow?_apply (step : BuildStep) (method : MethodHandle) :
    (step.apply metadata).2.methodRow? method =
      (step.methodRow? method).or (metadata.methodRow? method) := by
  cases step with
  | method owner source points =>
    rw [BuildStep.methodRow?, BuildStep.apply, setMethodRow, Metadata.methodRow?,
      Std.TreeMap.getElem?_insert]
    have hsame : compare (methodRowToken owner) (methodRowToken method) = .eq ↔ owner = method :=
      Std.compare_eq_iff_eq.trans methodRowToken_inj
    by_cases howner : owner = method
    · rw [if_pos (hsame.2 howner), if_pos howner, Option.some_or, MethodRow.ofBlob]
      simp only [List.isEmpty_iff]
    · rw [if_neg (mt hsame.1 howner), if_neg howner, Option.none_or]
      rfl
  | _ =>
    rw [Metadata.methodRow?, (untouched_apply metadata _).methods rfl]
    exact (Option.none_or).symm

/-- The heap gets the data of a step, and of a document that is refused at least the first ones. -/
theorem toList_blobs_apply (step : BuildStep) : ∃ kept, kept <+: step.heapData ∧
    (step.apply metadata).2.blobs.blobs.toList =
      metadata.blobs.blobs.toList ++ kept.filter (· ≠ []) ∧
    ∀ receipt, (step.apply metadata).1 = .ok receipt → kept = step.heapData := by
  cases step with
  | document path =>
    obtain ⟨kept, hprefix, hkept, hall⟩ := DocumentName.toList_encode path metadata.blobs
    refine ⟨kept, hprefix, ?_, ?_⟩
    · rw [BuildStep.apply, blobs_addDocument, hkept]
    · intro handle h
      rw [BuildStep.apply] at h
      obtain ⟨name, hname, -⟩ := row_of_addDocument h
      exact (hall name hname).1
  | blob data => exact ⟨[data], List.prefix_rfl, metadata.blobs.toList_add data, fun _ _ => rfl⟩
  | _ =>
    refine ⟨[], List.prefix_rfl, ?_, fun _ _ => rfl⟩
    rw [(untouched_apply metadata _).blobs rfl]
    exact (List.append_nil _).symm

end

/-! ## What all steps leave -/

theorem handles_documents_build (steps : List BuildStep) :
    (build steps).documents.handles = BuildStep.addedDocuments steps :=
  BuildStep.view_build (·.documents.handles) (·.document?) rfl handles_documents_apply steps

/-- The records are those of the steps that added one, in order. -/
theorem entries_records_build (steps : List BuildStep) :
    (build steps).records.entries = BuildStep.addedRecords steps :=
  BuildStep.view_build (·.records.entries) (·.record?) rfl entries_records_apply steps

/-- The row of a method is the one that the last step for the method set. -/
theorem methodRow?_build (steps : List BuildStep) (method : MethodHandle) :
    (build steps).methodRow? method = (steps.filterMap (·.methodRow? method)).getLast? := by
  induction steps using List.reverseRecOn with
  | nil => exact Std.TreeMap.getElem?_emptyc
  | append_singleton steps step ih =>
    rw [build_concat, List.filterMap_append, List.getLast?_append, ← ih, methodRow?_apply]
    cases hrow : step.methodRow? method with
    | none => simp [hrow]
    | some row => simp [hrow]

theorem mem_methods_build (steps : List BuildStep) (method : MethodHandle) :
    methodRowToken method ∈ (build steps).methods ↔ method ∈ steps.filterMap (·.method?) := by
  induction steps using List.reverseRecOn with
  | nil => simp [build, BuildStep.applyAll, empty]
  | append_singleton steps step ih =>
    rw [build_concat, List.filterMap_append, List.mem_append, ← ih]
    cases step with
    | method owner source points =>
      rw [BuildStep.apply, setMethodRow, Std.TreeMap.mem_insert, Std.compare_eq_iff_eq,
        methodRowToken_inj]
      simp [BuildStep.method?, or_comm, eq_comm]
    | _ =>
      rw [(untouched_apply (build steps) _).methods rfl]
      simp [BuildStep.method?]

/-- Methods have one row each, however many steps set it. -/
theorem size_methods_build (steps : List BuildStep) :
    (build steps).methods.size = (steps.filterMap (·.method?)).toFinset.card := by
  induction steps using List.reverseRecOn with
  | nil => rfl
  | append_singleton steps step ih =>
    rw [build_concat, List.filterMap_append, List.toFinset_append]
    cases step with
    | method owner source points =>
      have hmem := mem_methods_build steps owner
      rw [BuildStep.apply, setMethodRow, Std.TreeMap.size_insert, ih]
      have hset : [BuildStep.method owner source points].filterMap (·.method?) = [owner] := rfl
      rw [hset, Finset.union_comm]
      by_cases howner : methodRowToken owner ∈ (build steps).methods
      · rw [if_pos (Std.TreeMap.contains_iff_mem.2 howner)]
        have hlog := List.mem_toFinset.2 (hmem.1 howner)
        simp [hlog]
      · rw [if_neg (mt Std.TreeMap.contains_iff_mem.1 howner)]
        have hlog := mt List.mem_toFinset.1 (mt hmem.2 howner)
        exact (Finset.card_insert_of_notMem hlog).symm
    | _ =>
      rw [(untouched_apply (build steps) _).methods rfl, ih]
      simp [BuildStep.method?]

end Metadata

namespace BuildStep

variable {steps : List BuildStep}

theorem map_step_outcomes (steps : List BuildStep) : (outcomes steps).map Outcome.step = steps := by
  refine List.ext_getElem? fun k => ?_
  rw [List.getElem?_map, getElem?_outcomes, Option.map_map]
  exact congrFun Option.map_id _

/-- What came of a step, and that what it left is there in the end. -/
theorem extends_of_outcome {k : Nat} {step : BuildStep} {receipt : Except DebugError step.Receipt}
    (h : (outcomes steps)[k]? = some ⟨step, receipt⟩) :
    steps[k]? = some step ∧ (step.apply (.build (steps.take k))).1 = receipt ∧
      (step.apply (.build (steps.take k))).2.Extends (.build steps) := by
  rw [getElem?_outcomes, Option.map_eq_some_iff] at h
  obtain ⟨found, hfound, hsame⟩ := h
  cases hsame
  have hfinal := Metadata.extends_build steps (k + 1)
  rw [Metadata.build_take_succ hfound] at hfinal
  exact ⟨hfound, rfl, hfinal⟩

theorem mem_outcomes {k : Nat} {step : BuildStep} {receipt : Except DebugError step.Receipt}
    (hstep : steps[k]? = some step) (hreceipt : (step.apply (.build (steps.take k))).1 = receipt) :
    ⟨step, receipt⟩ ∈ outcomes steps := by
  refine List.mem_of_getElem? (i := k) ?_
  rw [getElem?_outcomes, hstep, ← hreceipt]
  rfl

/-- If no record is refused, all of them are added. -/
theorem map_addedRecords (h : ∀ row e, ⟨.record row, .error e⟩ ∉ outcomes steps) :
    (addedRecords steps).map Prod.snd = steps.filterMap (·.record?) := by
  conv_rhs => rw [← map_step_outcomes steps, List.filterMap_map]
  rw [addedRecords, List.map_filterMap]
  refine List.filterMap_congr fun outcome houtcome => ?_
  obtain ⟨step, receipt⟩ := outcome
  cases step with
  | record row =>
    cases receipt with
    | ok handle => rfl
    | error e => exact absurd houtcome (h row e)
  | _ => rfl

end BuildStep

namespace Metadata

variable {steps : List BuildStep}

open BuildStep (outcomes)

theorem documentRow_of_outcome {row : Document} {handle : DocumentHandle}
    (h : ⟨.documentRow row, .ok handle⟩ ∈ outcomes steps) :
    (build steps).documents.get? handle = some row := by
  obtain ⟨k, hk⟩ := List.mem_iff_getElem?.1 h
  obtain ⟨-, hreceipt, hextends⟩ := BuildStep.extends_of_outcome hk
  exact hextends.documents.get? (get?_of_addDocumentRow _ hreceipt)

theorem record_of_outcome {row : CustomDebug.Record} {handle : CustomDebugHandle}
    (h : ⟨.record row, .ok handle⟩ ∈ outcomes steps) :
    (build steps).records.get? handle = some row := by
  rw [← Table.mem_entries_iff, entries_records_build]
  exact List.mem_filterMap.2 ⟨_, h, rfl⟩

/-- The document that a step added by its path has this path for its name. -/
theorem documentName_of_outcome {path : String} {handle : DocumentHandle}
    (h : ⟨.document path, .ok handle⟩ ∈ outcomes steps) :
    (build steps).store (.documentName handle) = .ok path := by
  obtain ⟨k, hk⟩ := List.mem_iff_getElem?.1 h
  obtain ⟨-, hreceipt, hextends⟩ := BuildStep.extends_of_outcome hk
  rw [BuildStep.apply] at hreceipt hextends
  obtain ⟨name, hname, hrow⟩ := row_of_addDocument hreceipt
  have hblobs := hextends.blobs
  rw [blobs_addDocument] at hblobs
  show (resolve (build steps).documents handle >>= fun row =>
    row.resolveName (build steps).blobs) = .ok path
  rw [resolve_of_get? (hextends.documents.get? hrow)]
  exact DocumentName.decode_of_encode hname hblobs

end Metadata

end PortablePdb
