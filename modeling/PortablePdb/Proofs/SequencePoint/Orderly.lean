import Mathlib.Data.List.Forall2
import PortablePdb.Metadata.Build
import PortablePdb.Proofs.SequencePoint.Language
import PortablePdb.Query.SourcePoints

/-!
# What a blob can give

Whatever is in a blob, the points that it gives are in order and well formed. Nothing checks this
once a blob has been read. It comes from the grammar: the distance to the next point is never zero
(`Groups.increasing`), and a range whose lines and columns are not both zero ends behind its start,
since columns only count backwards where the range ends on a later line (`Body.wellFormed`).

In particular the marking line tells hidden points from all others, so it still does so when the
points have gone through a query, which does not hand on the marks of hidden points
(`isHidden_of_resolveDocuments`).

* `decode_orderly`: what every blob gives, and what every query does.
-/

namespace PortablePdb

namespace SequencePoint

/-- Points with offsets that only go up, each of which is well formed and has a document. -/
structure Orderly (document : Option DocumentHandle) (points : List SequencePoint) : Prop where
  increasing : points.Pairwise fun point next => point.offset < next.offset
  /-- Each point is what is found under its offset. -/
  find_offset : ∀ (k : Nat) (point : SequencePoint), points[k]? = some point →
    findByOffset points point.offset = some point
  /-- Under any other offset nothing is found. -/
  find_other : ∀ offset, (∀ point ∈ points, point.offset ≠ offset) →
    findByOffset points offset = none
  /-- A hidden point has the marking line and column zero twice. Every other point covers a range
  of source text that is not empty and does not touch the marking line. -/
  wellFormed : ∀ point ∈ points,
    point.isHidden = true ∧ point.start = ⟨hiddenLine, 0⟩ ∧ point.stop = ⟨hiddenLine, 0⟩ ∨
      point.isHidden = false ∧ point.start.InRange ∧ point.stop.InRange ∧
        point.start.Before point.stop
  /-- The row id of a document is one that a token can hold. -/
  exists_document : ∀ point ∈ points, ∃ found, point.document = some found ∧
    1 ≤ found.rid ∧ found.rid ≤ 0xFFFFFF
  /-- The first point lies in the document of the method's row, if the row names one. -/
  head : ∀ named, document = some named → ∀ point ∈ points.head?, point.document = some named

/-! ## One group -/

/-- A lead ends with a distance that is not zero, except before the first point. -/
theorem Lead.lt_offset {context : Context} {lead : List Compressed} {document : DocumentHandle}
    {offset : Nat} (h : Lead context lead document offset) :
    ∀ last ∈ context.offset, last < offset := by
  intro last hlast
  cases h with
  | first distance hfirst =>
    rw [hfirst] at hlast
    cases hlast
  | next hsome hchanges hdistance hlimit =>
    rw [hsome] at hlast
    cases hlast
    omega

theorem Lead.document_of_first {context : Context} {lead : List Compressed}
    {document : DocumentHandle} {offset : Nat} (h : Lead context lead document offset)
    (hfirst : context.offset = none) : document = context.document := by
  cases h with
  | first distance _ => rfl
  | next hsome _ _ _ =>
    rw [hfirst] at hsome
    cases hsome

section

variable {document : DocumentHandle} {offset : Nat} {last start : Option Position}
  {body : List Compressed} {point : SequencePoint}

theorem Body.offset_eq (h : Body document offset last body point start) :
    point.offset = offset := by
  cases h with
  | hidden _ _ => rfl
  | visible _ _ _ _ _ _ => rfl

theorem Body.document_eq (h : Body document offset last body point start) :
    point.document = some document := by
  cases h with
  | hidden _ _ => rfl
  | visible _ _ _ _ _ _ => rfl

/-- A visible range that stays in one line spans columns that are not zero and have no sign. -/
theorem Body.wellFormed (h : Body document offset last body point start) : point.WellFormed := by
  cases h with
  | hidden _ _ => exact wellFormed_hidden offset document
  | @visible lines columns line column start stop hspan _ hlines hcolumns hstart hstop =>
    refine wellFormed_visible document hstart hstop ?_
    by_cases hsame : lines.value = 0
    · have hwide : columns.value ≠ 0 := fun hzero => hspan ⟨hsame, hzero⟩
      rw [columnSpan, if_pos hsame] at hcolumns
      exact Or.inr ⟨by omega, by omega⟩
    · exact Or.inl (by omega)

end

/-! ## All groups -/

section

variable {context : Context} {integers : List Compressed} {points : List SequencePoint}

/-- Every group gives a point that is well formed. -/
theorem Groups.wellFormed (h : Groups context integers points) :
    ∀ point ∈ points, point.WellFormed := by
  induction h with
  | nil => simp
  | cons _ hbody _ ih =>
    intro point hpoint
    rcases List.mem_cons.1 hpoint with rfl | hmore
    · exact hbody.wellFormed
    · exact ih point hmore

/-- Every group leaves its own offset in force, and the next one begins behind that. -/
theorem Groups.increasing (h : Groups context integers points) :
    (∀ last ∈ context.offset, ∀ point ∈ points, last < point.offset) ∧
      points.Pairwise fun point next => point.offset < next.offset := by
  induction h with
  | nil => simp
  | @cons context document offset start lead body more point points hlead hbody _ ih =>
    obtain ⟨hbehind, hpairwise⟩ := ih
    have hrest : ∀ next ∈ points, point.offset < next.offset := by
      rw [hbody.offset_eq]
      exact hbehind offset rfl
    refine ⟨?_, List.pairwise_cons.2 ⟨hrest, hpairwise⟩⟩
    intro last hlast next hnext
    have hlt : last < point.offset := by
      rw [hbody.offset_eq]
      exact hlead.lt_offset last hlast
    rcases List.mem_cons.1 hnext with rfl | hmore
    · exact hlt
    · exact Nat.lt_trans hlt (hrest next hmore)

theorem Groups.head_document (h : Groups context integers points)
    (hfirst : context.offset = none) :
    ∀ point ∈ points.head?, point.document = some context.document := by
  cases h with
  | nil => simp
  | cons hlead hbody _ =>
    intro point hpoint
    cases hpoint
    rw [hbody.document_eq, hlead.document_of_first hfirst]

end

theorem Header.document_of_some {named first : DocumentHandle} {header : List Compressed}
    (h : Header (some named) header first) : first = named := by
  cases h with
  | named _ _ => rfl

/-! ## Points in order -/

section

variable {points : List SequencePoint}

/-- Where offsets only go up, each finds the point that it belongs to. -/
theorem findByOffset_of_mem
    (hincreasing : points.Pairwise fun point next => point.offset < next.offset)
    {point : SequencePoint} (h : point ∈ points) :
    findByOffset points point.offset = some point := by
  induction points with
  | nil => cases h
  | cons first more ih =>
    obtain ⟨hfirst, hmore⟩ := List.pairwise_cons.1 hincreasing
    rw [findByOffset]
    rcases List.mem_cons.1 h with rfl | hlater
    · exact List.find?_cons_of_pos (by simp)
    · have hne : first.offset ≠ point.offset := Nat.ne_of_lt (hfirst point hlater)
      rw [List.find?_cons_of_neg (by simpa using hne)]
      exact ih hmore hlater

theorem findByOffset_of_ne {offset : Nat} (h : ∀ point ∈ points, point.offset ≠ offset) :
    findByOffset points offset = none := by
  refine List.find?_eq_none.2 ?_
  intro point hpoint
  simpa using h point hpoint

theorem WellFormed.cases {point : SequencePoint} (h : point.WellFormed) :
    point.isHidden = true ∧ point.start = ⟨hiddenLine, 0⟩ ∧ point.stop = ⟨hiddenLine, 0⟩ ∨
      point.isHidden = false ∧ point.start.InRange ∧ point.stop.InRange ∧
        point.start.Before point.stop := by
  obtain ⟨document, hhidden | ⟨hvisible, hrange⟩⟩ := h
  · rw [hhidden]
    exact Or.inl ⟨rfl, rfl, rfl⟩
  · refine Or.inr ⟨?_, hrange⟩
    rw [hvisible]
    rfl

theorem WellFormed.document_valid {point : SequencePoint} (h : point.WellFormed) :
    ∃ found, point.document = some found ∧ 1 ≤ found.rid ∧ found.rid ≤ 0xFFFFFF := by
  have hvalid (found : DocumentHandle) : 1 ≤ found.rid ∧ found.rid ≤ 0xFFFFFF :=
    ⟨found.rid_valid.1, Nat.le_of_lt_succ found.rid_valid.2⟩
  obtain ⟨document, hhidden | ⟨hvisible, -⟩⟩ := h
  · rw [hhidden]
    exact ⟨document, rfl, hvalid document⟩
  · rw [hvisible]
    exact ⟨document, rfl, hvalid document⟩

theorem orderly_of_groups {context : Context} {integers : List Compressed}
    {document : Option DocumentHandle} (h : Groups context integers points)
    (hfirst : context.offset = none) (hnamed : ∀ named, document = some named →
      context.document = named) : Orderly document points where
  increasing := h.increasing.2
  find_offset k point hpoint :=
    findByOffset_of_mem h.increasing.2 (List.mem_of_getElem? hpoint)
  find_other offset hne := findByOffset_of_ne hne
  wellFormed point hpoint := (h.wellFormed point hpoint).cases
  exists_document point hpoint := (h.wellFormed point hpoint).document_valid
  head named hdocument point hpoint := by
    rw [← hnamed named hdocument]
    exact h.head_document hfirst point hpoint

/-- The points of a blob are those of the groups behind its header. -/
theorem exists_groups_of_decode {document : Option DocumentHandle} {blob : Bytes}
    (hblob : blob ≠ []) (h : decode document blob = .ok points) :
    ∃ first groups, Groups (.initial first) groups points ∧
      ∀ named, document = some named → first = named := by
  obtain ⟨integers, -, header, groups, first, -, hheader, hgroups⟩ := spells_of_decode hblob h
  refine ⟨first, groups, hgroups, ?_⟩
  rintro named rfl
  exact hheader.document_of_some

theorem wellFormed_of_decode {document : Option DocumentHandle} {blob : Bytes}
    (h : decode document blob = .ok points) : ∀ point ∈ points, point.WellFormed := by
  by_cases hblob : blob = []
  · subst hblob
    cases h
    simp
  · obtain ⟨first, groups, hgroups, -⟩ := exists_groups_of_decode hblob h
    exact hgroups.wellFormed

theorem orderly_of_decode {document : Option DocumentHandle} {blob : Bytes}
    (h : decode document blob = .ok points) : Orderly document points := by
  by_cases hblob : blob = []
  · subst hblob
    cases h
    exact ⟨.nil, by simp, by simp [findByOffset], by simp, by simp, by simp⟩
  · obtain ⟨first, groups, hgroups, hnamed⟩ := exists_groups_of_decode hblob h
    exact orderly_of_groups hgroups rfl hnamed

end

end SequencePoint

/-! ## Points that have gone through a query -/

namespace Query

/-- A query adds the names of documents and leaves everything else of the points as it is. -/
theorem forall₂_of_resolveDocuments {store : Store} {memo : NameMemo}
    {points : List SequencePoint} {resolved : List SourcePoint}
    (h : ((resolveDocuments memo points).run store).outcome = .ok resolved) :
    List.Forall₂ (fun point found => ∃ name, found = SourcePoint.ofSequencePoint point name)
      points resolved := by
  induction points generalizing memo resolved with
  | nil =>
    cases h
    exact .nil
  | cons point more ih =>
    rw [resolveDocuments, outcome_bind] at h
    obtain ⟨⟨name, memo⟩, -, h⟩ := bind_eq_ok_iff.1 h
    rw [outcome_bind] at h
    obtain ⟨rest, hrest, h⟩ := bind_eq_ok_iff.1 h
    cases h
    exact .cons ⟨name, rfl⟩ (ih hrest)

/-- The marking line outlives a query, which does not hand on the marks. -/
theorem isHidden_of_resolveDocuments {store : Store} {memo : NameMemo}
    {points : List SequencePoint} {resolved : List SourcePoint}
    (hpoints : ∀ point ∈ points, point.WellFormed)
    (h : ((resolveDocuments memo points).run store).outcome = .ok resolved) :
    resolved.map SourcePoint.isHidden = points.map SequencePoint.isHidden := by
  have hresolved := forall₂_of_resolveDocuments h
  clear h
  induction hresolved with
  | nil => rfl
  | @cons point found more rest hfound _ ih =>
    obtain ⟨name, rfl⟩ := hfound
    have hpoint : point.WellFormed := hpoints point List.mem_cons_self
    rw [List.map_cons, List.map_cons, SourcePoint.isHidden_ofSequencePoint hpoint,
      ih fun other hother => hpoints other (List.mem_cons_of_mem _ hother)]

theorem sourcePoints_eq_ok_iff {store : Store} {method : MethodHandle}
    {resolved : List SourcePoint} :
    ((sourcePoints method).run store).outcome = .ok resolved ↔
      ∃ points, store (.sequencePoints method) = .ok points ∧
        ((resolveDocuments [] points).run store).outcome = .ok resolved := by
  rw [sourcePoints, outcome_bind, bind_eq_ok_iff]
  refine exists_congr fun points => and_congr Iff.rfl ?_
  rw [outcome_bind, bind_eq_ok_iff]
  constructor
  · rintro ⟨found, hfound, hresolved⟩
    cases hresolved
    exact hfound
  · intro h
    exact ⟨resolved, h, rfl⟩

end Query

namespace Metadata

theorem wellFormed_of_methodPoints {metadata : Metadata} {method : MethodHandle}
    {points : List SequencePoint} (h : metadata.methodPoints method = .ok points) :
    ∀ point ∈ points, point.WellFormed := by
  unfold methodPoints MethodRow.sequencePoints at h
  split at h
  · split at h
    · exact SequencePoint.wellFormed_of_decode h
    · cases h
      simp
  · cases h
    simp

end Metadata

namespace SequencePoint

/-- **What a blob can give.** Whatever is in a blob, its points are in order and well formed. Hence,
whatever is in the tables, a query for the source ranges of a method gives hidden ranges for the
method's hidden points and for no others. -/
theorem decode_orderly :
    (∀ (document : Option DocumentHandle) (blob : Bytes) (points : List SequencePoint),
      decode document blob = .ok points → Orderly document points) ∧
    ∀ (metadata : Metadata) (method : MethodHandle) (resolved : List SourcePoint),
      ((Query.sourcePoints method).run metadata.store).outcome = .ok resolved →
        ∃ points, metadata.store (.sequencePoints method) = .ok points ∧
          resolved.map SourcePoint.isHidden = points.map SequencePoint.isHidden := by
  refine ⟨fun document blob points h => orderly_of_decode h, ?_⟩
  intro metadata method resolved h
  obtain ⟨points, hpoints, hresolved⟩ := Query.sourcePoints_eq_ok_iff.1 h
  have hwellFormed : ∀ point ∈ points, point.WellFormed :=
    Metadata.wellFormed_of_methodPoints hpoints
  exact ⟨points, hpoints, Query.isHidden_of_resolveDocuments hwellFormed hresolved⟩

/-- A hidden point between two visible ones, the second of which lies in another document and ends
left of where it starts. -/
def switchingBlob : Bytes := [0, 1, 0, 0, 8, 5, 1, 4, 0, 0, 0, 3, 2, 1, 0x7F, 0x02, 0x02]

def switchingPoints : List SequencePoint :=
  [.visible 0 ⟨5, 1⟩ ⟨5, 9⟩ .first, .hidden 4 .first, .visible 6 ⟨6, 2⟩ ⟨7, 1⟩ ⟨3, by decide⟩]

def switchingSteps : List BuildStep :=
  [.document "/src/a.cs", .document "b.cs", .method .first none switchingBlob, .document "c.cs"]

theorem decode_orderly_switching :
    decode none switchingBlob = .ok switchingPoints ∧ Orderly none switchingPoints ∧
      ∃ resolved points,
        ((Query.sourcePoints .first).run (Metadata.build switchingSteps).store).outcome =
          .ok resolved ∧
        (Metadata.build switchingSteps).store (.sequencePoints .first) = .ok points ∧
        resolved.map SourcePoint.isHidden = points.map SequencePoint.isHidden := by
  have hdecode : decode none switchingBlob = .ok switchingPoints := by decide +kernel
  have hresolved : ((Query.sourcePoints .first).run (Metadata.build switchingSteps).store).outcome =
      .ok [⟨0, ⟨5, 1⟩, ⟨5, 9⟩, "/src/a.cs"⟩,
        ⟨4, ⟨hiddenLine, 0⟩, ⟨hiddenLine, 0⟩, "/src/a.cs"⟩, ⟨6, ⟨6, 2⟩, ⟨7, 1⟩, "c.cs"⟩] := by
    decide +kernel
  obtain ⟨points, hpoints, hhidden⟩ := decode_orderly.2 _ _ _ hresolved
  exact ⟨hdecode, decode_orderly.1 none switchingBlob switchingPoints hdecode, _, points, hresolved,
    hpoints, hhidden⟩

end SequencePoint

end PortablePdb
