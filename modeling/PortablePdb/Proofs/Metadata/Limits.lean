import PortablePdb.Proofs.Metadata.Log

/-!
# Steps below the limits of the tables

As long as no table has to hold more rows than there are row ids, every step succeeds, but for
documents with a part whose index is too large for a name blob (`exists_receipt`). The tables then
hold just what the steps were given: rows with the row ids 1, 2, 3, … in the order of the steps,
and for each method the row that was set last. Data are in one heap, from documents and from other
steps alike, in the order of the steps and without the empty ones. They are found under the indices
that were given for them as long as there is a next index in 32 bits; behind that all data share the
last one.

* `logKept_of_belowLimits`: all that is found in the end of what the steps were given.
-/

namespace PortablePdb

namespace BuildStep

/-- No table has to hold more rows than there are row ids. -/
structure BelowLimits (steps : List BuildStep) : Prop where
  documents : steps.countP (·.isDocument) < rowLimit
  scopes : ScopeDeclaration.Fit (declarations steps)
  records : steps.countP (·.record?.isSome) < rowLimit

variable {steps : List BuildStep}

/-! ## Room for one more row -/

/-- Before a step of some sort there are fewer of the sort than in all. -/
theorem countP_take_lt {sort : BuildStep → Bool} {k : Nat} {step : BuildStep}
    (hstep : steps[k]? = some step) (h : sort step = true) :
    (steps.take k).countP sort < steps.countP sort := by
  have hthis : (steps.take (k + 1)).countP sort = (steps.take k).countP sort + 1 := by
    rw [List.take_add_one, hstep, List.countP_append]
    simp [h]
  have hall : (steps.take (k + 1)).countP sort ≤ steps.countP sort :=
    (List.take_sublist (k + 1) steps).countP_le
  omega

/-- If only steps of one sort add something, no more is added than there are such steps. -/
theorem length_added_le {α : Type} {added : Outcome → Option α} {sort : BuildStep → Bool}
    (h : ∀ outcome a, added outcome = some a → sort outcome.step = true)
    (steps : List BuildStep) :
    ((outcomes steps).filterMap added).length ≤ steps.countP sort := by
  have hsteps : steps.countP sort = (outcomes steps).countP (sort ∘ Outcome.step) := by
    rw [← List.countP_map, map_step_outcomes]
  rw [List.length_filterMap_eq_countP, hsteps]
  refine List.countP_mono_left fun outcome _ hsome => ?_
  obtain ⟨a, ha⟩ := Option.isSome_iff_exists.1 hsome
  exact h outcome a ha

theorem isDocument_of_outcome {outcome : Outcome} {handle : DocumentHandle}
    (h : outcome.document? = some handle) : outcome.step.isDocument = true := by
  unfold Outcome.document? at h
  split at h
  · rfl
  · rfl
  · cases h

theorem isSome_record?_of_outcome {outcome : Outcome}
    {entry : CustomDebugHandle × CustomDebug.Record} (h : outcome.record? = some entry) :
    outcome.step.record?.isSome = true := by
  unfold Outcome.record? at h
  split at h
  · rfl
  · cases h

namespace BelowLimits

/-- Below the limits there is a row for each document. -/
theorem hasRoom_documents (h : BelowLimits steps) {k : Nat} {step : BuildStep}
    (hstep : steps[k]? = some step) (hdocument : step.isDocument = true) :
    (Metadata.build (steps.take k)).documents.HasRoom 1 := by
  have hrows : (Metadata.build (steps.take k)).documents.size ≤
      (steps.take k).countP (·.isDocument) := by
    rw [← Table.length_handles, Metadata.handles_documents_build]
    exact length_added_le (fun _ _ hadded => isDocument_of_outcome hadded) _
  have hlimit := h.documents
  have hbefore : (steps.take k).countP (·.isDocument) < steps.countP (·.isDocument) :=
    countP_take_lt hstep hdocument
  show (Metadata.build (steps.take k)).documents.size + 1 < rowLimit
  omega

theorem hasRoom_records (h : BelowLimits steps) {k : Nat} {step : BuildStep}
    (hstep : steps[k]? = some step) (hrecord : step.record?.isSome = true) :
    (Metadata.build (steps.take k)).records.HasRoom 1 := by
  have hrows : (Metadata.build (steps.take k)).records.size ≤
      (steps.take k).countP (·.record?.isSome) := by
    rw [← Table.length_handles, ← Table.map_fst_entries, List.length_map,
      Metadata.entries_records_build]
    exact length_added_le (fun _ _ hadded => isSome_record?_of_outcome hadded) _
  have hlimit := h.records
  have hbefore : (steps.take k).countP (·.record?.isSome) < steps.countP (·.record?.isSome) :=
    countP_take_lt hstep hrecord
  show (Metadata.build (steps.take k)).records.size + 1 < rowLimit
  omega

theorem fit_take (h : BelowLimits steps) (k : Nat) :
    ScopeDeclaration.Fit (declarations (steps.take k)) := by
  refine h.scopes.of_prefix ?_
  exact (List.take_prefix k steps).filterMap _

/-- A step succeeds, unless it is a document that the heap has become too large for. -/
theorem exists_receipt (h : BelowLimits steps) {k : Nat} {step : BuildStep}
    (hstep : steps[k]? = some step)
    (hheap : ∀ path, step = .document path →
      (Metadata.build (steps.take (k + 1))).blobs.size ≤ 0x1FFFFFFF) :
    ∃ receipt, (step.apply (.build (steps.take k))).1 = .ok receipt := by
  cases step with
  | document path =>
    have hsize := hheap path rfl
    rw [Metadata.build_take_succ hstep, apply] at hsize
    obtain ⟨handle, -, hhandle, -, -⟩ :=
      Metadata.exists_addDocument hsize (h.hasRoom_documents hstep rfl)
    exact ⟨handle, hhandle⟩
  | documentRow row =>
    obtain ⟨handle, next, hadd⟩ := Table.exists_add? (h.hasRoom_documents hstep rfl) row
    exact ⟨handle, by rw [apply, Metadata.addDocumentRow, hadd]⟩
  | blob data => exact ⟨_, rfl⟩
  | method owner source points => exact ⟨(), rfl⟩
  | scope owner start length localVariables =>
    obtain ⟨hdeclared, hlaid⟩ := Metadata.laid_build (h.fit_take k)
    have hfit := h.fit_take (k + 1)
    rw [List.take_add_one, hstep, declarations, List.filterMap_append, ← declarations,
      ← hdeclared] at hfit
    obtain ⟨handles, next, hadd, -⟩ :=
      hlaid.exists_addScope ⟨owner, start, length, localVariables⟩ hfit
    exact ⟨handles, congrArg Prod.fst hadd⟩
  | record row =>
    obtain ⟨handle, next, hadd⟩ := Table.exists_add? (h.hasRoom_records hstep rfl) row
    exact ⟨handle, by rw [apply, Metadata.addRecord, hadd]⟩

/-- Below the limits a step only fails if a path has a part whose index cannot be stored. -/
theorem eq_document_of_error (h : BelowLimits steps) {k : Nat} {step : BuildStep} {e : DebugError}
    (houtcome : (outcomes steps)[k]? = some ⟨step, .error e⟩) :
    ∃ path, step = .document path ∧
      0x1FFFFFFF < (Metadata.build (steps.take (k + 1))).blobs.size := by
  obtain ⟨hstep, hreceipt, -⟩ := extends_of_outcome houtcome
  by_contra hother
  obtain ⟨receipt, hok⟩ := h.exists_receipt hstep fun path hpath =>
    Nat.le_of_not_lt fun hheap => hother ⟨path, hpath, hheap⟩
  rw [hreceipt] at hok
  cases hok

theorem map_addedRecords (h : BelowLimits steps) :
    (addedRecords steps).map Prod.snd = steps.filterMap (·.record?) := by
  refine BuildStep.map_addedRecords ?_
  intro row e houtcome
  obtain ⟨k, hk⟩ := List.mem_iff_getElem?.1 houtcome
  obtain ⟨path, hpath, -⟩ := h.eq_document_of_error hk
  cases hpath

end BelowLimits

end BuildStep

/-! ## What is kept -/

namespace Metadata

open BuildStep (outcomes addedDocuments addedRecords addedScopes declarations)

/-- A document that was added by its path when the heap had `size` blobs: its name holds the
separator and the indices that its parts got, and the parts are found under these. -/
def PathKept (final : Metadata) (size : Nat) (path : String) (handle : DocumentHandle) : Prop :=
  let indices := BlobHeap.indicesFrom size (DocumentName.partData path)
  ∃ stored, List.Forall₂ (fun index stored => Compressed.ofNat index = .ok stored) indices stored ∧
    final.documents.get? handle = some
      ⟨DocumentName.separatorOf path.toList :: stored.flatMap Compressed.bytes, none, [], none⟩ ∧
    List.Forall₂ (fun index part => final.blobs.get index = .ok part) indices
      (DocumentName.partData path)

/-- What the tables hold in the end of the rows that some steps were given. -/
structure RowsKept (steps : List BuildStep) : Prop where
  /-- Documents have one sequence of row ids, whether they were added by a path or as a row. -/
  document_rids : (addedDocuments steps).map Handle.rid =
    List.range' 1 ((build steps).rowCount .document)
  documentRow : ∀ row handle, ⟨.documentRow row, .ok handle⟩ ∈ outcomes steps →
    (build steps).documents.get? handle = some row
  document : ∀ k path handle, (outcomes steps)[k]? = some ⟨.document path, .ok handle⟩ →
    (build steps).PathKept (build (steps.take k)).blobs.size path handle ∧
      (build steps).store (.documentName handle) = .ok path
  /-- Records have row ids of their own, and are listed in the order of the steps. -/
  record_list : (build steps).store .customDebugInformation =
    .ok ((addedRecords steps).map Prod.fst)
  record_rids : ((addedRecords steps).map Prod.fst).map Handle.rid =
    List.range' 1 ((build steps).rowCount .customDebugInformation)
  record_rows : (addedRecords steps).map Prod.snd = steps.filterMap (·.record?)
  record : ∀ row handle, ⟨.record row, .ok handle⟩ ∈ outcomes steps →
    (build steps).store (.customDebugRecord handle) = .ok row
  scope_rows : (addedScopes steps).map (·.declaration) = declarations steps
  /-- The row of a scope says where its variables begin, behind those of the scopes before it. -/
  scope : ∀ front s back, addedScopes steps = front ++ s :: back →
    (build steps).scopes.get? s.handles.scope =
      some (s.declaration.row (AddedScope.rowAfter front))
  localVariable : ∀ s ∈ addedScopes steps,
    List.Forall₂ (fun handle row => (build steps).store (.localVariable handle) = .ok row)
      s.handles.localVariables s.declaration.localVariables
  /-- The row of a method is what the last step for the method gave. -/
  methodRow : ∀ method,
    (build steps).methodRow? method = (steps.filterMap (·.methodRow? method)).getLast?

/-- How many rows the tables have after some steps; behind the last one there is nothing. -/
structure RowsCounted (steps : List BuildStep) : Prop where
  documents : (build steps).rowCount .document = (addedDocuments steps).length
  /-- Every method has one row, however often it was set. -/
  methods : (build steps).rowCount .methodDebugInformation =
    (steps.filterMap (·.method?)).toFinset.card
  scopes : (build steps).rowCount .localScope = (declarations steps).length
  localVariables : (build steps).rowCount .localVariable =
    (ScopeDeclaration.allVariables (declarations steps)).length
  records : (build steps).rowCount .customDebugInformation =
    (steps.filterMap (·.record?)).length
  others : ∀ table, table ∉ [.document, .methodDebugInformation, .localScope, .localVariable,
    .customDebugInformation] → (build steps).rowCount table = 0
  invalidDocument : ∀ handle : DocumentHandle, (build steps).rowCount .document < handle.rid →
    (build steps).store (.documentName handle) = .error (.invalidHandle handle.token)
  invalidVariable : ∀ handle : LocalVariableHandle,
    (build steps).rowCount .localVariable < handle.rid →
      (build steps).store (.localVariable handle) = .error (.invalidHandle handle.token)
  invalidRecord : ∀ handle : CustomDebugHandle,
    (build steps).rowCount .customDebugInformation < handle.rid →
      (build steps).store (.customDebugRecord handle) = .error (.invalidHandle handle.token)

/-- What the heap holds in the end of the data that some steps were given. -/
structure HeapKept (steps : List BuildStep) : Prop where
  /-- A step that succeeds puts its data behind those that are there, without the empty ones. If it
  fails this is true of the first of them. -/
  append : ∀ k step, steps[k]? = some step → ∃ kept, kept <+: step.heapData ∧
    (build (steps.take (k + 1))).blobs.blobs.toList =
      (build (steps.take k)).blobs.blobs.toList ++ kept.filter (· ≠ []) ∧
    ∀ receipt, (outcomes steps)[k]? = some ⟨step, .ok receipt⟩ → kept = step.heapData
  whole : BuildStep.AllSucceed steps →
    (build steps).blobs.blobs.toList = (steps.flatMap (·.heapData)).filter (· ≠ [])
  /-- Empty data get the index 0, and others the next index as long as there are some left. What
  was given is found under this index in the end. -/
  blob : ∀ (k : Nat) data index, (outcomes steps)[k]? = some ⟨.blob data, .ok index⟩ →
    (data = [] ∨ (build (steps.take k)).blobs.size < 0xFFFFFFFF) →
      index.toNat = (if data = [] then 0 else (build (steps.take k)).blobs.size + 1) ∧
        (build steps).blobs.get index.toNat = .ok data
  /-- Where no index is left the last one is given once more, and still finds what it found. -/
  lastIndex : ∀ (k : Nat) data index, (outcomes steps)[k]? = some ⟨.blob data, .ok index⟩ →
    data ≠ [] → 0xFFFFFFFF ≤ (build (steps.take k)).blobs.size →
      index.toNat = 0xFFFFFFFF ∧ (build steps).blobs.get index.toNat =
        (build (steps.take k)).blobs.get index.toNat
  outOfBounds : ∀ index, (build steps).blobs.size < index →
    (build steps).blobs.get index = .error .outOfBounds

/-- How the tables in the end reflect the steps that built them. -/
structure LogKept (steps : List BuildStep) : Prop where
  /-- Only documents can be refused, when the heap is too large for a name blob. -/
  refused : ∀ k step e, (outcomes steps)[k]? = some ⟨step, .error e⟩ →
    ∃ path, step = .document path ∧ 0x1FFFFFFF < (build (steps.take (k + 1))).blobs.size
  rows : RowsKept steps
  counts : RowsCounted steps
  heap : HeapKept steps

theorem resolve_of_size_lt {table : TableId} {Row : Type} {rows : Table table Row}
    {handle : Handle table} (h : rows.size < handle.rid) :
    resolve rows handle = .error (.invalidHandle handle.token) := by
  rw [resolve, Table.get?_eq_none_iff.2 h]

variable {steps : List BuildStep}

theorem pathKept_of_outcome {k : Nat} {path : String} {handle : DocumentHandle}
    (h : (outcomes steps)[k]? = some ⟨.document path, .ok handle⟩) :
    (build steps).PathKept (build (steps.take k)).blobs.size path handle := by
  obtain ⟨-, hreceipt, hextends⟩ := BuildStep.extends_of_outcome h
  rw [BuildStep.apply] at hreceipt hextends
  obtain ⟨name, hname, hrow⟩ := row_of_addDocument hreceipt
  obtain ⟨kept, -, hheap, hall⟩ := DocumentName.toList_encode path (build (steps.take k)).blobs
  obtain ⟨rfl, stored, hindices, rfl⟩ := hall name hname
  have hblobs := hextends.blobs
  rw [blobs_addDocument] at hblobs
  refine ⟨stored, hindices, hextends.documents.get? hrow, ?_⟩
  exact (BlobHeap.get?_indicesFrom _ hheap).imp fun index part hpart =>
    BlobHeap.get_eq_ok_iff.2 (hblobs.get? hpart)

/-- What each step was given is found again under the handle that it gave. -/
theorem rowsKept_of_belowLimits (h : BuildStep.BelowLimits steps) : RowsKept steps := by
  obtain ⟨hdeclared, hlaid⟩ := laid_build h.scopes
  constructor
  case document_rids =>
    rw [← handles_documents_build, Table.map_rid_handles]
    rfl
  case documentRow => exact fun row handle houtcome => documentRow_of_outcome houtcome
  case document =>
    intro k path handle houtcome
    exact ⟨pathKept_of_outcome houtcome, documentName_of_outcome (List.mem_of_getElem? houtcome)⟩
  case record_list =>
    rw [← entries_records_build]
    exact congrArg Except.ok (Table.map_fst_entries _).symm
  case record_rids =>
    have hrids := (build steps).records.map_rid_handles
    rwa [← Table.map_fst_entries, entries_records_build] at hrids
  case record_rows => exact h.map_addedRecords
  case record => exact fun row handle houtcome => resolve_of_get? (record_of_outcome houtcome)
  case scope_rows => exact hdeclared
  case scope =>
    intro front s back hadded
    rw [Table.get?_eq_getElem?_log, hlaid.rid_scope hadded, Nat.add_sub_cancel,
      hlaid.row_scope hadded]
  case localVariable =>
    exact fun s hs => (hlaid.declared s hs).imp fun _ _ hrow => resolve_of_get? hrow
  case methodRow => exact methodRow?_build steps

theorem rowsCounted_of_belowLimits (h : BuildStep.BelowLimits steps) : RowsCounted steps := by
  obtain ⟨hdeclared, hlaid⟩ := laid_build h.scopes
  constructor
  case documents =>
    rw [← handles_documents_build, Table.length_handles]
    rfl
  case methods => exact size_methods_build steps
  case scopes =>
    rw [← hdeclared, List.length_map]
    exact hlaid.size_scopes
  case localVariables =>
    have hsize := hlaid.size_localVariables
    rw [AddedScope.rowAfter, hdeclared] at hsize
    show (build steps).localVariables.size = _
    omega
  case records =>
    rw [← h.map_addedRecords, List.length_map, ← entries_records_build,
      ← List.length_map Prod.fst, Table.map_fst_entries, Table.length_handles]
    rfl
  case others =>
    intro table htable
    cases table with
    | module | typeDef | methodDef | localConstant | importScope | stateMachineMethod => rfl
    | _ => simp at htable
  case invalidDocument =>
    intro handle hrid
    show (resolve (build steps).documents handle >>= fun row =>
      row.resolveName (build steps).blobs) = .error (.invalidHandle handle.token)
    rw [resolve_of_size_lt hrid]
    rfl
  case invalidVariable => exact fun handle hrid => resolve_of_size_lt hrid
  case invalidRecord => exact fun handle hrid => resolve_of_size_lt hrid

/-- If all steps succeed, the heap holds what they gave it, less what is empty. -/
theorem toList_blobs_build (h : BuildStep.AllSucceed steps) :
    (build steps).blobs.blobs.toList = (steps.flatMap (·.heapData)).filter (· ≠ []) := by
  induction steps using List.reverseRecOn with
  | nil => rfl
  | append_singleton steps step ih =>
    obtain ⟨hsteps, receipt, hreceipt⟩ := h.of_concat
    obtain ⟨kept, -, hkept, hall⟩ := toList_blobs_apply (build steps) step
    rw [build_concat, hkept, ih hsteps, hall receipt hreceipt, List.flatMap_append,
      List.flatMap_singleton, List.filter_append]

theorem heapKept (steps : List BuildStep) : HeapKept steps := by
  constructor
  case append =>
    intro k step hstep
    obtain ⟨kept, hprefix, hkept, hall⟩ := toList_blobs_apply (build (steps.take k)) step
    refine ⟨kept, hprefix, ?_, ?_⟩
    · rw [build_take_succ hstep, hkept]
    · intro receipt houtcome
      exact hall receipt (BuildStep.extends_of_outcome houtcome).2.1
  case whole => exact toList_blobs_build
  case blob =>
    intro k data index houtcome hleft
    obtain ⟨-, hreceipt, hextends⟩ := BuildStep.extends_of_outcome houtcome
    obtain rfl : ((build (steps.take k)).blobs.add data).1 = index := Except.ok.inj hreceipt
    have hnext : data ≠ [] → (build (steps.take k)).blobs.size < 0xFFFFFFFF := hleft.resolve_left
    refine ⟨BlobHeap.toNat_fst_add_of_next hnext, ?_⟩
    exact BlobHeap.get_eq_ok_iff.2 (hextends.blobs.get? (BlobHeap.get?_add hnext))
  case lastIndex =>
    intro k data index houtcome hdata hfull
    obtain ⟨-, hreceipt, -⟩ := BuildStep.extends_of_outcome houtcome
    obtain rfl : ((build (steps.take k)).blobs.add data).1 = index := Except.ok.inj hreceipt
    have hindex : ((build (steps.take k)).blobs.add data).1.toNat = 0xFFFFFFFF := by
      rw [BlobHeap.toNat_fst_add, if_neg hdata]
      omega
    rw [hindex]
    refine ⟨rfl, ?_⟩
    obtain ⟨old, hold⟩ := Option.isSome_iff_exists.1
      (((build (steps.take k)).blobs.isSome_get? 0xFFFFFFFF).2 hfull)
    rw [BlobHeap.get_eq_ok_iff.2 hold]
    exact BlobHeap.get_eq_ok_iff.2 ((extends_build steps k).blobs.get? hold)
  case outOfBounds => exact fun index hindex => BlobHeap.get_eq_error_iff.2 ⟨rfl, hindex⟩

/-- **The tables reflect the steps.** Below the limits of the tables no step but a document is
refused, and what is found in the end is what the steps were given, each row under the handle that
its step gave, whatever steps there are behind it. -/
theorem logKept_of_belowLimits (h : BuildStep.BelowLimits steps) : LogKept steps where
  refused _ _ _ houtcome := h.eq_document_of_error houtcome
  rows := rowsKept_of_belowLimits h
  counts := rowsCounted_of_belowLimits h
  heap := heapKept steps

/-- Steps of all sorts: documents of both kinds that share parts and an empty one, a method that is
set twice, and scopes and records in turns. -/
def mixedLogSteps : List BuildStep :=
  [.blob [1, 2], .document "src//a.cs", .method .first none [7],
    .record ⟨(.first : LocalVariableHandle).token, none, [1]⟩,
    .documentRow ⟨[0, 1], none, [9], none⟩, .scope .first 0 9 [⟨.none, 0, "a"⟩, ⟨.none, 1, "b"⟩],
    .blob [], .method .first (some .first) [], .scope ⟨8, by decide⟩ 0 4 [], .document "b.cs",
    .record ⟨⟨0x06, 1, by decide⟩, none, []⟩]

theorem logKept_mixed : BuildStep.BelowLimits mixedLogSteps ∧ LogKept mixedLogSteps := by
  have hbelow : BuildStep.BelowLimits mixedLogSteps :=
    ⟨by decide, ⟨by decide, by decide, by decide⟩, by decide⟩
  exact ⟨hbelow, logKept_of_belowLimits hbelow⟩

end Metadata

end PortablePdb
