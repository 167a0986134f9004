import PortablePdb.Proofs.Metadata.Steps

/-!
# Names of documents

The name of a document that was added by its path is that path. The parts of the path are under the
indices that its name blob holds, and stay there while the heap grows (`resolve_of_storeParts`); the
blob splits into just these indices, and the parts are joined again with the character at which the
path was split (`decode_of_encode`). An index can be written as long as the heap is not larger than
the greatest number that has a stored form (`exists_encode`).

* `documentName_of_step`: the name of each document that some steps add by its path.
-/

namespace PortablePdb

/-! ## Indices that can be stored -/

/-- An index that can be stored is below the last one, so it is not shared. -/
theorem BlobHeap.size_lt_of_stored {heap : BlobHeap} {data : Bytes} {stored : Compressed}
    (h : Compressed.ofNat (heap.add data).1.toNat = .ok stored) (hdata : data ≠ []) :
    heap.size < 0xFFFFFFFF := by
  have hle := Compressed.ofNat_eq_ok_iff.1 ⟨stored, h⟩
  exact size_lt_of_index_lt hdata (by omega)

namespace DocumentName

/-! ## Parts in the heap -/

/-- The index of each part is at most as large as the heap is in the end. -/
theorem exists_storeParts (parts : List Part) {heap : BlobHeap}
    (h : (storeParts parts heap).2.size ≤ 0x1FFFFFFF) :
    ∃ indices, (storeParts parts heap).1 = .ok indices := by
  induction parts generalizing heap with
  | nil => exact ⟨[], rfl⟩
  | cons part more ih =>
    have hindex := heap.add_le_size (part.flatMap String.utf8EncodeChar)
    rcases hadd : heap.add (part.flatMap String.utf8EncodeChar) with ⟨index, next⟩
    rw [hadd] at hindex
    simp only [storeParts, hadd] at h ⊢
    cases hstored : Compressed.ofNat index.toNat with
    | error e =>
      rw [hstored] at h
      obtain ⟨stored, hok⟩ := Compressed.ofNat_eq_ok_iff.2 (Nat.le_trans hindex h)
      rw [hstored] at hok
      cases hok
    | ok stored =>
      rw [hstored] at h
      obtain ⟨indices, hindices⟩ := ih h
      exact ⟨stored :: indices, by simp only [hindices, Except.map]⟩

/-- The induction is on the parts; the heap that the later parts leave still holds this one. -/
theorem resolve_of_storeParts {parts : List Part} {heap final : BlobHeap}
    {indices : List Compressed} (h : (storeParts parts heap).1 = .ok indices)
    (hfinal : (storeParts parts heap).2.Extends final) :
    resolve final none indices = .ok parts := by
  induction parts generalizing heap indices with
  | nil =>
    cases h
    rfl
  | cons part more ih =>
    rcases hadd : heap.add (part.flatMap String.utf8EncodeChar) with ⟨index, next⟩
    simp only [storeParts, hadd] at h hfinal
    cases hstored : Compressed.ofNat index.toNat with
    | error e =>
      rw [hstored] at h
      cases h
    | ok stored =>
      rw [hstored] at h hfinal
      obtain ⟨rest, hmore, rfl⟩ := map_eq_ok_iff.1 h
      have hindex : Compressed.ofNat (heap.add (part.flatMap String.utf8EncodeChar)).1.toNat =
          .ok stored := by
        rw [hadd]
        exact hstored
      have hget := BlobHeap.get?_add (BlobHeap.size_lt_of_stored hindex)
      rw [hadd] at hget
      have hkept := ((extends_storeParts more next).trans hfinal).get? hget
      have hpart : final.get stored.value = .ok (part.flatMap String.utf8EncodeChar) := by
        rw [BlobHeap.get, Compressed.value_of_ofNat hstored, hkept]
      rw [resolve, hpart, ih hmore hfinal]
      simp only [bind, Except.bind, pure, Except.pure, Utf8.decodeChars_flatMap]

/-! ## Name blobs -/

theorem exists_encode {path : String} {heap : BlobHeap}
    (h : (encode path heap).2.size ≤ 0x1FFFFFFF) : ∃ name, (encode path heap).1 = .ok name := by
  rw [snd_encode] at h
  obtain ⟨indices, hindices⟩ := exists_storeParts _ h
  rw [fst_encode]
  exact ⟨_, map_eq_ok_iff.2 ⟨indices, hindices, rfl⟩⟩

theorem decode_of_encode {path : String} {heap final : BlobHeap} {name : Bytes}
    (h : (encode path heap).1 = .ok name) (hfinal : (encode path heap).2.Extends final) :
    decode final name = .ok path := by
  rw [fst_encode] at h
  rw [snd_encode] at hfinal
  obtain ⟨indices, hindices, rfl⟩ := map_eq_ok_iff.1 h
  have hparts := resolve_of_storeParts hindices hfinal
  rw [decode, if_pos (separatorOf_lt path.toList), Compressed.scan_flatMap_bytes]
  simp only [hparts, bind, Except.bind, pure, Except.pure, join_split, String.ofList_toList]

end DocumentName

/-! ## Documents -/

namespace Metadata

theorem blobs_addDocumentRow (metadata : Metadata) (row : Document) :
    (metadata.addDocumentRow row).2.blobs = metadata.blobs := by
  obtain ⟨documents, h⟩ := metadata.addDocumentRow_changes row
  rw [h]

theorem blobs_addDocument (metadata : Metadata) (path : String) :
    (metadata.addDocument path).2.blobs = (DocumentName.encode path metadata.blobs).2 := by
  simp only [addDocument]
  split
  · rw [blobs_addDocumentRow]
  · rfl

/-- Where there is room for the name and the row of a document, a row with its name is added. -/
theorem exists_addDocument {metadata : Metadata} {path : String}
    (hheap : (metadata.addDocument path).2.blobs.size ≤ 0x1FFFFFFF)
    (hroom : metadata.documents.HasRoom 1) :
    ∃ handle row, (metadata.addDocument path).1 = .ok handle ∧
      (metadata.addDocument path).2.documents.get? handle = some row ∧
      (DocumentName.encode path metadata.blobs).1 = .ok row.name := by
  rw [blobs_addDocument] at hheap
  obtain ⟨name, hname⟩ := DocumentName.exists_encode hheap
  obtain ⟨handle, next, hadd⟩ := Table.exists_add? hroom ⟨name, none, [], none⟩
  have hdocument : metadata.addDocument path = (.ok handle,
      { metadata with
        blobs := (DocumentName.encode path metadata.blobs).2
        documents := next }) := by
    simp only [addDocument, hname, addDocumentRow, hadd]
  rw [hdocument]
  exact ⟨handle, _, rfl, Table.get?_add hadd, hname⟩

/-- **The name of a document.** As long as the heap and the document table are not full, a document
is added by any path, and in the end its name is that path, whatever other steps there are. -/
theorem documentName_of_step {steps : List BuildStep} {k : Nat} {path : String}
    (hstep : steps[k]? = some (.document path))
    (hheap : (build (steps.take (k + 1))).blobs.size ≤ 0x1FFFFFFF)
    (hroom : (build (steps.take k)).documents.HasRoom 1) :
    ∃ handle, (BuildStep.outcomes steps)[k]? = some ⟨.document path, .ok handle⟩ ∧
      (build steps).store (.documentName handle) = .ok path := by
  have hfinal := extends_build steps (k + 1)
  rw [build_take_succ hstep] at hheap hfinal
  obtain ⟨handle, row, hhandle, hrow, hname⟩ := exists_addDocument hheap hroom
  have hblobs : (DocumentName.encode path (build (steps.take k)).blobs).2.Extends
      (build steps).blobs := by
    rw [← blobs_addDocument]
    exact hfinal.blobs
  refine ⟨handle, ?_, ?_⟩
  · rw [BuildStep.getElem?_outcomes, hstep, Option.map_some, BuildStep.apply, hhandle]
  · have hfound := resolve_of_get? (hfinal.documents.get? hrow)
    show (resolve (build steps).documents handle >>= fun row =>
      row.resolveName (build steps).blobs) = .ok path
    rw [hfound]
    exact DocumentName.decode_of_encode hname hblobs

/-- A path with both separators, side by side and at its ends, and with a NUL character, between
other steps that use the heap. -/
def mixedPathSteps : List BuildStep :=
  [.document "C:\\src", .blob [0x2F], .document "\\src//a\x00\\é😀/", .blob [], .document ""]

theorem documentName_of_step_mixed :
    mixedPathSteps[2]? = some (.document "\\src//a\x00\\é😀/") ∧
      (build (mixedPathSteps.take 3)).blobs.size ≤ 0x1FFFFFFF ∧
      (build (mixedPathSteps.take 2)).documents.HasRoom 1 ∧
      ∃ handle, (BuildStep.outcomes mixedPathSteps)[2]? =
          some ⟨.document "\\src//a\x00\\é😀/", .ok handle⟩ ∧
        (build mixedPathSteps).store (.documentName handle) = .ok "\\src//a\x00\\é😀/" := by
  have hheap : (build (mixedPathSteps.take 3)).blobs.size ≤ 0x1FFFFFFF := by decide +kernel
  have hroom : (build (mixedPathSteps.take 2)).documents.HasRoom 1 := by decide +kernel
  exact ⟨rfl, hheap, hroom, documentName_of_step rfl hheap hroom⟩

end Metadata

end PortablePdb
