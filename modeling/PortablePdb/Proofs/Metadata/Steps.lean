import Mathlib.Data.List.Basic
import PortablePdb.Metadata.Build
import PortablePdb.Proofs.Metadata.Numbering

/-!
# Building step by step

Tables and the heap only grow: whatever a step does, and whether it fails or not, what was there
stays where it was (`extends_apply`), so it is still there at the end (`extends_build`). Only the
rows of methods can be replaced; they are not part of this.

What came of a step depends on the steps before it alone (`getElem?_outcomes`).
-/

namespace PortablePdb

/-! ## The heap -/

namespace BlobHeap

/-- A heap extends another one if it begins with what that one keeps. -/
def Extends (old new : BlobHeap) : Prop := old.blobs.toList <+: new.blobs.toList

theorem Extends.refl (heap : BlobHeap) : heap.Extends heap := List.prefix_rfl

theorem Extends.trans {old middle new : BlobHeap} (h : old.Extends middle)
    (h' : middle.Extends new) : old.Extends new := List.IsPrefix.trans h h'

theorem Extends.get? {old new : BlobHeap} (h : old.Extends new) {index : Nat} {data : Bytes}
    (hdata : old.get? index = some data) : new.get? index = some data := by
  cases index with
  | zero => exact hdata
  | succ index =>
    obtain ⟨more, hmore⟩ := h
    simp only [BlobHeap.get?, ← Array.getElem?_toList] at hdata ⊢
    have hlt : index < old.blobs.toList.length := (List.getElem?_eq_some_iff.1 hdata).1
    rw [← hmore, List.getElem?_append_left hlt, hdata]

theorem extends_add (heap : BlobHeap) (data : Bytes) : heap.Extends (heap.add data).2 := by
  unfold add
  split
  · exact .refl heap
  · simp [Extends]

end BlobHeap

/-! ## One step -/

namespace DocumentName

theorem extends_storeParts (parts : List Part) (heap : BlobHeap) :
    heap.Extends (storeParts parts heap).2 := by
  induction parts generalizing heap with
  | nil => exact .refl heap
  | cons part more ih =>
    have hadd := heap.extends_add (part.flatMap String.utf8EncodeChar)
    simp only [storeParts]
    split
    · exact hadd
    · exact hadd.trans (ih _)

theorem extends_encode (path : String) (heap : BlobHeap) : heap.Extends (encode path heap).2 := by
  rw [snd_encode]
  exact extends_storeParts _ heap

end DocumentName

namespace Metadata

theorem extends_addVariables (localVariables : List LocalVariable)
    (rows : Table .localVariable LocalVariable) :
    rows.Extends (addVariables localVariables rows).2 := by
  induction localVariables generalizing rows with
  | nil => exact .refl rows
  | cons row more ih =>
    simp only [addVariables]
    split
    · exact .refl rows
    · rename_i handle next hadd
      exact (Table.extends_add? hadd).trans (ih next)

section

variable (metadata : Metadata)

theorem addDocumentRow_changes (row : Document) : ∃ documents,
    (metadata.addDocumentRow row).2 = { metadata with documents := documents } := by
  unfold addDocumentRow
  split
  · exact ⟨_, rfl⟩
  · exact ⟨_, rfl⟩

theorem addDocument_changes (path : String) : ∃ blobs documents,
    (metadata.addDocument path).2 = { metadata with blobs := blobs, documents := documents } := by
  simp only [addDocument]
  split
  · rename_i name _
    obtain ⟨documents, hdocuments⟩ := addDocumentRow_changes
      { metadata with blobs := (DocumentName.encode path metadata.blobs).2 } ⟨name, none, [], none⟩
    exact ⟨_, documents, hdocuments⟩
  · exact ⟨_, _, rfl⟩

theorem addScope_changes (method : MethodHandle) (start length : UInt32)
    (localVariables : List LocalVariable) : ∃ scopes rows,
    (metadata.addScope method start length localVariables).2 =
      { metadata with scopes := scopes, localVariables := rows } := by
  unfold addScope
  split
  · simp only
    split
    · exact ⟨_, _, rfl⟩
    · exact ⟨_, _, rfl⟩
  · exact ⟨_, _, rfl⟩

theorem addRecord_changes (row : CustomDebug.Record) : ∃ records,
    (metadata.addRecord row).2 = { metadata with records := records } := by
  unfold addRecord
  split
  · exact ⟨_, rfl⟩
  · exact ⟨_, rfl⟩

end

/-- Tables extend others if they still hold everything that those held. -/
structure Extends (old new : Metadata) : Prop where
  blobs : old.blobs.Extends new.blobs
  documents : old.documents.Extends new.documents
  scopes : old.scopes.Extends new.scopes
  localVariables : old.localVariables.Extends new.localVariables
  records : old.records.Extends new.records

theorem Extends.refl (metadata : Metadata) : metadata.Extends metadata where
  blobs := .refl _
  documents := .refl _
  scopes := .refl _
  localVariables := .refl _
  records := .refl _

theorem Extends.trans {old middle new : Metadata} (h : old.Extends middle)
    (h' : middle.Extends new) : old.Extends new where
  blobs := h.blobs.trans h'.blobs
  documents := h.documents.trans h'.documents
  scopes := h.scopes.trans h'.scopes
  localVariables := h.localVariables.trans h'.localVariables
  records := h.records.trans h'.records

section

variable (metadata : Metadata)

theorem extends_addDocumentRow (row : Document) :
    metadata.Extends (metadata.addDocumentRow row).2 := by
  unfold addDocumentRow
  split
  · rename_i handle documents hadd
    exact { Extends.refl metadata with documents := Table.extends_add? hadd }
  · exact .refl metadata

theorem extends_of_blobs {blobs : BlobHeap} (h : metadata.blobs.Extends blobs) :
    metadata.Extends { metadata with blobs := blobs } :=
  { Extends.refl metadata with blobs := h }

theorem extends_addDocument (path : String) : metadata.Extends (metadata.addDocument path).2 := by
  have hblobs := metadata.extends_of_blobs (DocumentName.extends_encode path metadata.blobs)
  simp only [addDocument]
  split
  · exact hblobs.trans (extends_addDocumentRow _ _)
  · exact hblobs

theorem extends_addBlob (data : Bytes) : metadata.Extends (metadata.addBlob data).2 :=
  metadata.extends_of_blobs (metadata.blobs.extends_add data)

theorem extends_setMethodRow (method : MethodHandle) (row : MethodRow) :
    metadata.Extends (metadata.setMethodRow method row) :=
  { Extends.refl metadata with }

theorem extends_addScope (method : MethodHandle) (start length : UInt32)
    (localVariables : List LocalVariable) :
    metadata.Extends (metadata.addScope method start length localVariables).2 := by
  have hrows := extends_addVariables localVariables metadata.localVariables
  unfold addScope
  split
  · rename_i scope scopes _ hadd _
    simp only
    split
    · exact { Extends.refl metadata with
        scopes := Table.extends_add? hadd
        localVariables := hrows }
    · exact { Extends.refl metadata with localVariables := hrows }
  · exact .refl metadata

theorem extends_addRecord (row : CustomDebug.Record) :
    metadata.Extends (metadata.addRecord row).2 := by
  unfold addRecord
  split
  · rename_i handle records hadd
    exact { Extends.refl metadata with records := Table.extends_add? hadd }
  · exact .refl metadata

theorem extends_apply (step : BuildStep) : metadata.Extends (step.apply metadata).2 := by
  cases step with
  | document path => exact extends_addDocument metadata path
  | documentRow row => exact extends_addDocumentRow metadata row
  | blob data => exact extends_addBlob metadata data
  | method method document points => exact extends_setMethodRow metadata method _
  | scope method start length localVariables =>
    exact extends_addScope metadata method start length localVariables
  | record row => exact extends_addRecord metadata row

end

end Metadata

/-! ## All steps -/

namespace BuildStep

theorem extends_applyAll (metadata : Metadata) (steps : List BuildStep) :
    metadata.Extends (applyAll metadata steps).2 := by
  induction steps generalizing metadata with
  | nil => exact .refl metadata
  | cons step more ih => exact (metadata.extends_apply step).trans (ih (step.apply metadata).2)

theorem getElem?_applyAll (metadata : Metadata) (steps : List BuildStep) (k : Nat) :
    (applyAll metadata steps).1[k]? = steps[k]?.map fun step =>
      ⟨step, (step.apply (applyAll metadata (steps.take k)).2).1⟩ := by
  induction steps generalizing metadata k with
  | nil => rfl
  | cons step more ih =>
    cases k with
    | zero => rfl
    | succ k => exact ih (step.apply metadata).2 k

/-- What came of each of some steps, from the first on. -/
def outcomes (steps : List BuildStep) : List Outcome := (applyAll .empty steps).1

theorem getElem?_outcomes (steps : List BuildStep) (k : Nat) :
    (outcomes steps)[k]? =
      steps[k]?.map fun step => ⟨step, (step.apply (.build (steps.take k))).1⟩ :=
  getElem?_applyAll .empty steps k

theorem outcomes_append (first second : List BuildStep) :
    outcomes (first ++ second) = outcomes first ++ (applyAll (.build first) second).1 :=
  congrArg Prod.fst (applyAll_append .empty first second)

theorem outcomes_concat (steps : List BuildStep) (step : BuildStep) :
    outcomes (steps ++ [step]) = outcomes steps ++ [⟨step, (step.apply (.build steps)).1⟩] :=
  outcomes_append steps [step]

end BuildStep

namespace Metadata

theorem build_append (first second : List BuildStep) :
    build (first ++ second) = (BuildStep.applyAll (build first) second).2 := by
  rw [build, BuildStep.applyAll_append]
  rfl

theorem build_concat (steps : List BuildStep) (step : BuildStep) :
    build (steps ++ [step]) = (step.apply (build steps)).2 := build_append steps [step]

theorem build_take_succ {steps : List BuildStep} {k : Nat} {step : BuildStep}
    (h : steps[k]? = some step) :
    build (steps.take (k + 1)) = (step.apply (build (steps.take k))).2 := by
  rw [List.take_add_one, h]
  exact build_concat _ step

/-- What some steps put into the tables is not changed by the steps that follow them. -/
theorem extends_build (steps : List BuildStep) (k : Nat) :
    (build (steps.take k)).Extends (build steps) := by
  have h := BuildStep.extends_applyAll (build (steps.take k)) (steps.drop k)
  rwa [← build_append, List.take_append_drop] at h

end Metadata

end PortablePdb
