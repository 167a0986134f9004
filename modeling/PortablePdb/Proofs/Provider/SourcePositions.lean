import PortablePdb.Proofs.Metadata.Log
import PortablePdb.Proofs.Query.DocumentNames
import PortablePdb.Proofs.SequencePoint.RoundTrip
import PortablePdb.Provider

/-!
# Source positions that were written

A provider reports the points that were written for a method, each with the path that was given for
its document. Four parts of the way there are taken one by one. The row of the method is the one
that was set last (`methodRow?_of_last`), its blob gives the points again (`decode_of_isBlobOf`),
and the name of a document is its path. The last part is the query, whose memo makes no difference
to what is found (`exists_resolveDocuments`).

* `sourcePoints_of_steps`: what a provider reports after any steps.
-/

namespace PortablePdb

namespace SequencePoint

/-- A blob that is written for some points. If there are none it can also be empty. -/
def IsBlobOf (document : Option DocumentHandle) (points : List SequencePoint) (blob : Bytes) :
    Prop :=
  points = [] ∧ blob = [] ∨
    ∃ signature initial, signature ≤ maxUnsigned ∧ Encodable (document.getD initial) points ∧
      blob = encode signature document initial points

section

variable {document : Option DocumentHandle} {points : List SequencePoint} {blob : Bytes}

theorem decode_of_isBlobOf (h : IsBlobOf document points blob) :
    decode document blob = .ok points := by
  rcases h with ⟨rfl, rfl⟩ | ⟨signature, initial, hsignature, hpoints, rfl⟩
  · rfl
  · obtain ⟨integers, hstored, hspells⟩ := exists_spelling hsignature hpoints
    rw [encode, Compressed.written_of_stored hstored, List.nil_append]
    exact decode_of_spells hspells

theorem IsBlobOf.wellFormed (h : IsBlobOf document points blob) :
    ∀ point ∈ points, point.WellFormed := wellFormed_of_decode (decode_of_isBlobOf h)

end

end SequencePoint

/-! ## The last row of a method -/

theorem BuildStep.methodRow?_of_ne {step : BuildStep} {method : MethodHandle}
    (h : step.method? ≠ some method) : step.methodRow? method = none := by
  cases step with
  | method owner source points => exact if_neg fun howner => h (congrArg some howner)
  | _ => rfl

namespace Metadata

/-- Steps that come before the last one for a method, or are for other methods, do not matter. -/
theorem methodRow?_of_last {steps : List BuildStep} {method : MethodHandle}
    {source : Option DocumentHandle} {blob : Bytes}
    (h : (steps.filter fun step => step.method? = some method).getLast? =
      some (.method method source blob)) :
    (build steps).methodRow? method = some (.ofBlob source blob) := by
  obtain ⟨front, hfront⟩ := List.getLast?_eq_some_iff.1 h
  have hrows : steps.filterMap (·.methodRow? method) =
      (steps.filter fun step => step.method? = some method).filterMap (·.methodRow? method) := by
    rw [List.filterMap_filter]
    refine List.filterMap_congr fun step _ => ?_
    by_cases hmethod : step.method? = some method
    · simp [hmethod]
    · simp [hmethod, BuildStep.methodRow?_of_ne hmethod]
  have hrow : [BuildStep.method method source blob].filterMap (·.methodRow? method) =
      [.ofBlob source blob] := by
    simp [BuildStep.methodRow?, MethodRow.ofBlob]
  rw [methodRow?_build, hrows, hfront, List.filterMap_append, hrow, List.getLast?_concat]

/-- The points of a method come from the last step about it. -/
theorem store_sequencePoints_of_last {steps : List BuildStep} {method : MethodHandle}
    {source : Option DocumentHandle} {blob : Bytes}
    (h : (steps.filter fun step => step.method? = some method).getLast? =
      some (.method method source blob)) :
    (build steps).store (.sequencePoints method) = SequencePoint.decode source blob := by
  rw [store_sequencePoints (methodRow?_of_last h), MethodRow.sequencePoints_ofBlob]

end Metadata

/-! ## Names of documents -/

namespace Query

/-- A source range gives a point with the name that the store has for its document. -/
def Names (store : Store) (point : SequencePoint) (found : SourcePoint) : Prop :=
  ∃ name, found = .ofSequencePoint point name ∧
    ∀ document, point.document = some document → store (.documentName document) = .ok name

theorem names_of_ownRange {store : Store} {point : SequencePoint} {found : SourcePoint}
    (h : ownRange store point = .ok found) : Names store point found := by
  obtain ⟨name, hname, rfl⟩ := map_eq_ok_iff.1 h
  refine ⟨name, rfl, ?_⟩
  intro document hdocument
  exact (ownName_of_some hdocument).symm.trans hname

/-- If the store has a name for each document, a query gives all points with these names. -/
theorem exists_resolveDocuments {store : Store} {memo : NameMemo} {points : List SequencePoint}
    (hmemo : memo.Agrees store)
    (hpoints : ∀ point ∈ points, ∀ document, point.document = some document →
      ∃ name, store (.documentName document) = .ok name) :
    ∃ found, ((resolveDocuments memo points).run store).outcome = .ok found ∧
      List.Forall₂ (Names store) points found := by
  rw [resolveDocuments_outcome hmemo]
  cases hfound : points.mapM (ownRange store) with
  | error e =>
    obtain ⟨before, point, after, rfl, -, hfailed⟩ := mapM_eq_error_iff.1 hfound
    obtain ⟨found, hok⟩ := exists_ownRange_iff.2 (hpoints point (by simp))
    rw [hok] at hfailed
    cases hfailed
  | ok found =>
    exact ⟨found, rfl, (mapM_eq_ok_iff.1 hfound).imp fun point found => names_of_ownRange⟩

end Query

/-! ## Reports -/

namespace Metadata

open BuildStep (outcomes)

/-- A source range reports a point if it has the place and the mark of the point, and the path that
was given for its document. -/
structure Reports (steps : List BuildStep) (point : SequencePoint) (found : SourcePoint) :
    Prop where
  offset : found.offset = point.offset
  start : found.start = point.start
  stop : found.stop = point.stop
  isHidden : found.isHidden = point.isHidden
  document : ∀ handle path, point.document = some handle →
    ⟨.document path, .ok handle⟩ ∈ outcomes steps → found.document = path

variable {steps : List BuildStep}

/-- A name in the store is the path that the steps gave to the document. -/
theorem reports_of_names {point : SequencePoint} {found : SourcePoint} (hpoint : point.WellFormed)
    (h : Query.Names (build steps).store point found) : Reports steps point found := by
  obtain ⟨name, rfl, hname⟩ := h
  refine ⟨rfl, rfl, rfl, SourcePoint.isHidden_ofSequencePoint hpoint name, ?_⟩
  intro handle path hdocument houtcome
  have hstored := hname handle hdocument
  rw [documentName_of_outcome houtcome] at hstored
  exact (Except.ok.inj hstored).symm

theorem reports_of_forall₂ {points : List SequencePoint} {found : List SourcePoint}
    (hpoints : ∀ point ∈ points, point.WellFormed)
    (h : List.Forall₂ (Query.Names (build steps).store) points found) :
    List.Forall₂ (Reports steps) points found := by
  obtain ⟨hlength, hnames⟩ := List.forall₂_iff_zip.1 h
  refine List.forall₂_iff_zip.2 ⟨hlength, fun hzip => ?_⟩
  exact reports_of_names (hpoints _ (List.of_mem_zip hzip).1) (hnames hzip)

end Metadata

namespace Provider

open BuildStep (outcomes)
open Metadata (Reports)

/-- **Source positions are reported as they were written.** What else the steps do to the tables,
before or after, does not matter. -/
theorem sourcePoints_of_steps {steps : List BuildStep} {method : MethodHandle}
    {document : Option DocumentHandle} {points : List SequencePoint} {blob : Bytes}
    (hlast : (steps.filter fun step => step.method? = some method).getLast? =
      some (.method method document blob))
    (hblob : SequencePoint.IsBlobOf document points blob)
    (hdocuments : ∀ point ∈ points, ∀ handle, point.document = some handle →
      ∃ path, ⟨.document path, .ok handle⟩ ∈ outcomes steps)
    {provider : Provider} (hstore : provider.store = some (Metadata.build steps).store) :
    ∃ found, (provider.answer (.sourcePoints method)).1.outcome = .ok found ∧
      List.Forall₂ (Reports steps) points found := by
  have hpoints : (Metadata.build steps).store (.sequencePoints method) = .ok points := by
    rw [Metadata.store_sequencePoints_of_last hlast, SequencePoint.decode_of_isBlobOf hblob]
  have hmemo : Query.NameMemo.Agrees [] (Metadata.build steps).store := by
    intro handle name hknown
    cases hknown
  have hnamed : ∀ point ∈ points, ∀ handle, point.document = some handle →
      ∃ name, (Metadata.build steps).store (.documentName handle) = .ok name := by
    intro point hpoint handle hhandle
    obtain ⟨path, hpath⟩ := hdocuments point hpoint handle hhandle
    exact ⟨path, Metadata.documentName_of_outcome hpath⟩
  obtain ⟨found, hfound, hnames⟩ := Query.exists_resolveDocuments hmemo hnamed
  refine ⟨found, ?_, Metadata.reports_of_forall₂ hblob.wellFormed hnames⟩
  rw [answer_of_not_cached rfl, hstore]
  exact Query.sourcePoints_eq_ok_iff.2 ⟨points, hpoints, hfound⟩

/-- Two documents of which the second is added behind the method, and other steps for the method
and for another one. -/
def mixedPositionSteps : List BuildStep :=
  [.method .first (some .first) [7], .document "src/a.cs", .blob [9],
    .method .first none (SequencePoint.encode 0 none .first SequencePoint.mixedPoints),
    .method ⟨9, by decide⟩ none [7, 7], .scope .first 0 4 [⟨.none, 0, "a"⟩], .document "src\\b.cs"]

theorem sourcePoints_mixedPositions :
    let blob := SequencePoint.encode 0 none .first SequencePoint.mixedPoints
    let provider : Provider := .ofStore (Metadata.build mixedPositionSteps).store ⟨none, true⟩
    (mixedPositionSteps.filter fun step => step.method? = some .first).getLast? =
        some (.method .first none blob) ∧
      SequencePoint.IsBlobOf none SequencePoint.mixedPoints blob ∧
      (∀ point ∈ SequencePoint.mixedPoints, ∀ handle, point.document = some handle →
        ∃ path, ⟨.document path, .ok handle⟩ ∈ outcomes mixedPositionSteps) ∧
      provider.store = some (Metadata.build mixedPositionSteps).store ∧
      ∃ found, (provider.answer (.sourcePoints .first)).1.outcome = .ok found ∧
        List.Forall₂ (Reports mixedPositionSteps) SequencePoint.mixedPoints found := by
  intro blob provider
  have hlast : (mixedPositionSteps.filter fun step => step.method? = some .first).getLast? =
      some (.method .first none blob) := rfl
  have hblob : SequencePoint.IsBlobOf none SequencePoint.mixedPoints blob :=
    Or.inr ⟨0, .first, by decide, SequencePoint.encodable_mixedPoints, rfl⟩
  have hfirst : ⟨.document "src/a.cs", .ok .first⟩ ∈ outcomes mixedPositionSteps :=
    BuildStep.mem_outcomes (k := 1) rfl (by decide +kernel)
  have hsecond : ⟨.document "src\\b.cs", .ok ⟨2, by decide⟩⟩ ∈ outcomes mixedPositionSteps :=
    BuildStep.mem_outcomes (k := 6) rfl (by decide +kernel)
  have hdocuments : ∀ point ∈ SequencePoint.mixedPoints, ∀ handle, point.document = some handle →
      ∃ path, ⟨.document path, .ok handle⟩ ∈ outcomes mixedPositionSteps := by
    have hboth : ∀ point ∈ SequencePoint.mixedPoints,
        point.document = some .first ∨ point.document = some ⟨2, by decide⟩ := by decide
    intro point hpoint handle hhandle
    rcases hboth point hpoint with hdocument | hdocument
    · rw [hdocument] at hhandle
      exact ⟨_, Option.some.inj hhandle ▸ hfirst⟩
    · rw [hdocument] at hhandle
      exact ⟨_, Option.some.inj hhandle ▸ hsecond⟩
  exact ⟨hlast, hblob, hdocuments, rfl, sourcePoints_of_steps hlast hblob hdocuments rfl⟩

end Provider

end PortablePdb
