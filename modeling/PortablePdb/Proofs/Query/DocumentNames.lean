import Mathlib.Data.List.Forall2
import Mathlib.Data.List.Nodup
import PortablePdb.Proofs.Query.Stopping
import PortablePdb.Proofs.SequencePoint.Orderly

/-!
# Names of documents in a query

A query for the source ranges of a method remembers the names of documents that it has looked up.
The names in the memo are those of the store (`NameMemo.Agrees`), so each point gets the name that
it would get on its own (`resolveDocuments_outcome`). The documents in the memo are those of the
points so far, so a document is looked up for the first of its points and for no other
(`resolveDocuments_lookups`).

* `sourcePoints_namesOnce`: what a query finds for the points of a method, and what it looks up.
-/

namespace PortablePdb.Query

/-! ## One point -/

/-- A memo agrees with a store if it has no other names than the store. -/
def NameMemo.Agrees (memo : NameMemo) (store : Store) : Prop :=
  ∀ document name, memo.lookup document = some name → store (.documentName document) = .ok name

theorem NameMemo.agrees_nil (store : Store) : NameMemo.Agrees [] store := by
  intro document name hknown
  cases hknown

theorem NameMemo.Agrees.cons {memo : NameMemo} {store : Store} (h : memo.Agrees store)
    {document : DocumentHandle} {name : String}
    (hname : store (.documentName document) = .ok name) :
    NameMemo.Agrees ((document, name) :: memo) store := by
  intro other found hfound
  rw [List.lookup_cons] at hfound
  by_cases hsame : other = document
  · subst hsame
    simp only [BEq.rfl] at hfound
    rw [hname, Option.some.inj hfound]
  · rw [beq_false_of_ne hsame] at hfound
    exact h other found hfound

/-- A document is new to a memo that does not have its name. -/
def NameMemo.isNew (memo : NameMemo) (document : DocumentHandle) : Bool :=
  (memo.lookup document).isNone

theorem NameMemo.isNew_cons (memo : NameMemo) (document other : DocumentHandle) (name : String) :
    NameMemo.isNew ((document, name) :: memo) other = (!other == document && memo.isNew other) := by
  rw [isNew, List.lookup_cons]
  cases hsame : other == document with
  | true => rfl
  | false => rfl

/-- The name of the document of a point, found without a memo. -/
def ownName (store : Store) (point : SequencePoint) : Except DebugError String :=
  match point.document with
  | none => .ok ""
  | some document => store (.documentName document)

/-- The source range of a point, found without a memo. -/
def ownRange (store : Store) (point : SequencePoint) : Except DebugError SourcePoint :=
  (ownName store point).map (.ofSequencePoint point)

section

variable {store : Store} {point : SequencePoint}

theorem ownName_of_none (h : point.document = none) : ownName store point = .ok "" := by
  rw [ownName, h]

theorem ownName_of_some {document : DocumentHandle} (h : point.document = some document) :
    ownName store point = store (.documentName document) := by
  rw [ownName, h]

end

/-- How the name of the document of a point is found: without a lookup if the point has no document
or the memo has its name, and with one otherwise. -/
inductive FindsName (store : Store) (memo : NameMemo) (point : SequencePoint)
    (run : Run (String × NameMemo)) : Prop
  | known {name : String} (hrun : run = ⟨.ok (name, memo), [], []⟩)
      (hname : ownName store point = .ok name)
      (hknown : ∀ document, point.document = some document → memo.isNew document = false)
  | found {document : DocumentHandle} {name : String}
      (hrun : run = ⟨.ok (name, (document, name) :: memo), [.documentName document], []⟩)
      (hname : store (.documentName document) = .ok name)
      (hdocument : point.document = some document) (hnew : memo.isNew document = true)
  | failed {document : DocumentHandle} {e : DebugError}
      (hrun : run = ⟨.error e, [.documentName document], []⟩)
      (hfailed : store (.documentName document) = .error e)
      (hdocument : point.document = some document) (hnew : memo.isNew document = true)

/-- A memo that agrees with the store answers in its place. -/
theorem pointName_findsName {store : Store} {memo : NameMemo} (hmemo : memo.Agrees store)
    (point : SequencePoint) : FindsName store memo point ((pointName memo point).run store) := by
  unfold pointName
  cases hdocument : point.document with
  | none =>
    refine .known rfl (ownName_of_none hdocument) ?_
    intro document hsome
    rw [hdocument] at hsome
    cases hsome
  | some document =>
    simp only [documentName]
    cases hmet : memo.lookup document with
    | some name =>
      have hname : store (.documentName document) = .ok name := hmemo document name hmet
      refine .known rfl ((ownName_of_some hdocument).trans hname) ?_
      intro other hother
      obtain rfl : document = other := Option.some.inj (hdocument.symm.trans hother)
      rw [NameMemo.isNew, hmet]
      rfl
    | none =>
      have hnew : memo.isNew document = true := by
        rw [NameMemo.isNew, hmet]
        rfl
      cases hname : store (.documentName document) with
      | ok name => exact .found (run_ask_bind_ok hname _) hname hdocument hnew
      | error e => exact .failed (run_ask_bind_error hname _) hname hdocument hnew

/-! ## All points -/

/-- What is found for the points is what is found for each of them on its own. -/
theorem resolveDocuments_outcome {store : Store} {memo : NameMemo} (hmemo : memo.Agrees store)
    (points : List SequencePoint) :
    ((resolveDocuments memo points).run store).outcome = points.mapM (ownRange store) := by
  induction points generalizing memo with
  | nil => rfl
  | cons point more ih =>
    rw [resolveDocuments, outcome_bind, List.mapM_cons]
    cases pointName_findsName hmemo point with
    | known hrun hname _ =>
      rw [hrun, ownRange, hname]
      show ((resolveDocuments memo more >>= _).run store).outcome = _
      rw [outcome_bind, ih hmemo]
      rfl
    | @found document name hrun hname hdocument _ =>
      have hown : ownName store point = .ok name := (ownName_of_some hdocument).trans hname
      rw [hrun, ownRange, hown]
      show ((resolveDocuments ((document, name) :: memo) more >>= _).run store).outcome = _
      rw [outcome_bind, ih (hmemo.cons hname)]
      rfl
    | @failed document e hrun hfailed hdocument _ =>
      have hown : ownName store point = .error e := (ownName_of_some hdocument).trans hfailed
      rw [hrun, ownRange, hown]
      rfl

/-- The documents of some points that are new to a memo, each where it first occurs. -/
def newDocuments (memo : NameMemo) (points : List SequencePoint) : List DocumentHandle :=
  ((points.filterMap SequencePoint.document).filter memo.isNew).eraseDups

section

variable {memo : NameMemo} {point : SequencePoint}

theorem newDocuments_cons_of_known
    (h : ∀ document, point.document = some document → memo.isNew document = false)
    (more : List SequencePoint) : newDocuments memo (point :: more) = newDocuments memo more := by
  cases hdocument : point.document with
  | none => rw [newDocuments, List.filterMap_cons_none hdocument, ← newDocuments]
  | some document =>
    have hknown : ¬ memo.isNew document = true := by simp [h document hdocument]
    rw [newDocuments, List.filterMap_cons_some hdocument, List.filter_cons_of_neg hknown,
      ← newDocuments]

/-- A document that has been looked up is not new again. -/
theorem newDocuments_cons_of_new {document : DocumentHandle} (h : point.document = some document)
    (hnew : memo.isNew document = true) (name : String) (more : List SequencePoint) :
    newDocuments memo (point :: more) =
      document :: newDocuments ((document, name) :: memo) more := by
  -- Erasing the later occurrences of a document is the same as remembering its name.
  have hlater : NameMemo.isNew ((document, name) :: memo) =
      fun other => !other == document && memo.isNew other :=
    funext fun other => memo.isNew_cons document other name
  rw [newDocuments, List.filterMap_cons_some h, List.filter_cons_of_pos hnew, List.eraseDups_cons,
    List.filter_filter, ← hlater, ← newDocuments]

end

/-- Each new document is looked up, until a lookup fails. -/
theorem resolveDocuments_lookups {store : Store} {memo : NameMemo} (hmemo : memo.Agrees store)
    (points : List SequencePoint) :
    ((resolveDocuments memo points).run store).lookups =
      upTo store.fails ((newDocuments memo points).map .documentName) := by
  induction points generalizing memo with
  | nil => rfl
  | cons point more ih =>
    have hrest : ∀ named : String × NameMemo,
        ((do
          let rest ← resolveDocuments named.2 more
          pure (.ofSequencePoint point named.1 :: rest) :
            Query (List SourcePoint)).run store).lookups =
          ((resolveDocuments named.2 more).run store).lookups := by
      intro named
      rw [run_bind_pure]
    rw [resolveDocuments]
    cases pointName_findsName hmemo point with
    | @known name hrun _ hknown =>
      have hname : ((pointName memo point).run store).outcome = .ok (name, memo) := by rw [hrun]
      rw [run_bind_ok hname, hrun, newDocuments_cons_of_known hknown]
      exact (hrest (name, memo)).trans (ih hmemo)
    | @found document name hrun hfound hdocument hnew =>
      have hname : ((pointName memo point).run store).outcome =
          .ok (name, (document, name) :: memo) := by rw [hrun]
      rw [run_bind_ok hname, hrun, newDocuments_cons_of_new hdocument hnew name, List.map_cons,
        upTo_cons_of_neg (Store.fails_of_ok hfound), ← ih (hmemo.cons hfound)]
      exact congrArg (.documentName document :: ·) (hrest (name, (document, name) :: memo))
    | @failed document e hrun hfailed hdocument hnew =>
      have hname : ((pointName memo point).run store).outcome = .error e := by rw [hrun]
      rw [run_bind_error hname, hrun, newDocuments_cons_of_new hdocument hnew "", List.map_cons,
        upTo_cons_of_pos (Store.fails_of_error hfailed)]

/-! ## Going through a list with a function that can fail -/

section

variable {α β : Type} {f : α → Except DebugError β}

theorem mapM_eq_ok_iff {list : List α} {found : List β} :
    list.mapM f = .ok found ↔ List.Forall₂ (fun a b => f a = .ok b) list found := by
  induction list generalizing found with
  | nil =>
    rw [List.mapM_nil, List.forall₂_nil_left_iff]
    constructor
    · intro h
      cases h
      rfl
    · rintro rfl
      rfl
  | cons a more ih =>
    rw [List.mapM_cons, bind_eq_ok_iff, List.forall₂_cons_left_iff]
    refine exists_congr fun b => ?_
    rw [bind_eq_ok_iff]
    constructor
    · rintro ⟨hb, rest, hrest, h⟩
      cases h
      exact ⟨rest, hb, ih.1 hrest, rfl⟩
    · rintro ⟨rest, hb, hrest, rfl⟩
      exact ⟨hb, rest, ih.2 hrest, rfl⟩

theorem mapM_cons_eq_error_iff {a : α} {more : List α} {e : DebugError} :
    (a :: more).mapM f = .error e ↔
      f a = .error e ∨ ∃ b, f a = .ok b ∧ more.mapM f = .error e := by
  rw [List.mapM_cons, bind_eq_error_iff]
  refine or_congr_right (exists_congr fun b => and_congr_right fun _ => ?_)
  rw [bind_eq_error_iff]
  constructor
  · rintro (hmore | ⟨rest, -, h⟩)
    · exact hmore
    · cases h
  · exact Or.inl

/-- The first failure is the failure of the whole. -/
theorem mapM_eq_error_iff {list : List α} {e : DebugError} :
    list.mapM f = .error e ↔ ∃ before a after, list = before ++ a :: after ∧
      (∀ earlier ∈ before, ∃ b, f earlier = .ok b) ∧ f a = .error e := by
  constructor
  · intro h
    induction list with
    | nil => cases h
    | cons first more ih =>
      rcases mapM_cons_eq_error_iff.1 h with hfirst | ⟨b, hb, hmore⟩
      · exact ⟨[], first, more, rfl, List.forall_mem_nil _, hfirst⟩
      · obtain ⟨before, a, after, rfl, hbefore, ha⟩ := ih hmore
        exact ⟨first :: before, a, after, rfl, List.forall_mem_cons.2 ⟨⟨b, hb⟩, hbefore⟩, ha⟩
  · rintro ⟨before, a, after, rfl, hbefore, ha⟩
    induction before with
    | nil => exact mapM_cons_eq_error_iff.2 (Or.inl ha)
    | cons first before ih =>
      obtain ⟨⟨b, hb⟩, hlater⟩ := List.forall_mem_cons.1 hbefore
      exact mapM_cons_eq_error_iff.2 (Or.inr ⟨b, hb, ih hlater⟩)

end

/-! ## Points and their names -/

/-- A source range resolves a point if it has the place of the point, and the name that the store
has for the document of the point, or no name if the point has no document. -/
structure Resolves (store : Store) (point : SequencePoint) (found : SourcePoint) : Prop where
  offset : found.offset = point.offset
  start : found.start = point.start
  stop : found.stop = point.stop
  named : ∀ document, point.document = some document →
    store (.documentName document) = .ok found.document
  unnamed : point.document = none → found.document = ""

section

variable {store : Store} {point : SequencePoint}

theorem ownRange_eq_ok_iff {found : SourcePoint} :
    ownRange store point = .ok found ↔ Resolves store point found := by
  rw [ownRange, map_eq_ok_iff]
  constructor
  · rintro ⟨name, hname, rfl⟩
    refine ⟨rfl, rfl, rfl, ?_, ?_⟩
    · intro document hdocument
      exact (ownName_of_some hdocument).symm.trans hname
    · intro hnone
      rw [ownName_of_none hnone] at hname
      exact (Except.ok.inj hname).symm
  · rintro ⟨hoffset, hstart, hstop, hnamed, hunnamed⟩
    obtain ⟨offset, start, stop, name⟩ := found
    refine ⟨name, ?_, ?_⟩
    · cases hdocument : point.document with
      | none => rw [ownName_of_none hdocument, ← hunnamed hdocument]
      | some document => rw [ownName_of_some hdocument, hnamed document hdocument]
    · rw [SourcePoint.ofSequencePoint, ← hoffset, ← hstart, ← hstop]

theorem ownRange_eq_error_iff {e : DebugError} :
    ownRange store point = .error e ↔
      ∃ document, point.document = some document ∧ store (.documentName document) = .error e := by
  cases hdocument : point.document with
  | none => simp [ownRange, ownName_of_none hdocument, Except.map]
  | some document =>
    rw [ownRange, ownName_of_some hdocument]
    cases hname : store (.documentName document) with
    | error e => simp [Except.map, hname]
    | ok name => simp [Except.map, hname]

/-- A point without a document needs no name. -/
theorem exists_ownRange_iff : (∃ found, ownRange store point = .ok found) ↔
    ∀ document, point.document = some document →
      ∃ name, store (.documentName document) = .ok name := by
  cases hdocument : point.document with
  | none => simp [ownRange, ownName_of_none hdocument, Except.map]
  | some document =>
    rw [ownRange, ownName_of_some hdocument]
    cases hname : store (.documentName document) with
    | error e => simp [Except.map, hname]
    | ok name => simp [Except.map, hname]

end

/-- The documents of some points, each where it first occurs. -/
def documentsOf (points : List SequencePoint) : List DocumentHandle :=
  (points.filterMap SequencePoint.document).eraseDups

/-- Everything is new to an empty memo. -/
theorem newDocuments_nil (points : List SequencePoint) :
    newDocuments [] points = documentsOf points := by
  rw [newDocuments, documentsOf, List.filter_eq_self.2]
  intro document hdocument
  rfl

theorem nodup_eraseDups {α : Type} [DecidableEq α] (list : List α) : list.eraseDups.Nodup := by
  induction hlength : list.length using Nat.strongRecOn generalizing list with
  | ind length ih =>
    cases list with
    | nil => simp
    | cons first more =>
      have hshort : (more.filter fun other => !other == first).length < length := by
        rw [← hlength, List.length_cons]
        exact Nat.lt_succ_of_le (List.length_filter_le _ _)
      rw [List.eraseDups_cons, List.nodup_cons]
      refine ⟨?_, ih _ hshort _ rfl⟩
      rw [List.mem_eraseDups, List.mem_filter]
      simp

/-- How a query goes that resolves the points of a method: it finds what resolving each point on
its own would find, and looks the name of each document up once. -/
structure NamesOnce (store : Store) (method : MethodHandle) (points : List SequencePoint)
    (run : Run (List SourcePoint)) : Prop where
  /-- The outcome is that of resolving each point on its own. -/
  outcome : run.outcome = points.mapM (ownRange store)
  /-- There is one range for each point, in the same order. -/
  ok_iff : ∀ found, run.outcome = .ok found ↔ List.Forall₂ (Resolves store) points found
  /-- The error is that of the first point whose document has no name. -/
  error_iff : ∀ e, run.outcome = .error e ↔
    ∃ before point after document, points = before ++ point :: after ∧
      (∀ earlier ∈ before, ∀ named, earlier.document = some named →
        ∃ name, store (.documentName named) = .ok name) ∧
      point.document = some document ∧ store (.documentName document) = .error e
  /-- The documents are looked up in the order in which they first occur, up to the first one that
  has no name. -/
  lookups : run.lookups =
    .sequencePoints method :: upTo store.fails ((documentsOf points).map .documentName)
  nodup : run.lookups.Nodup

/-- No lookup of a query for source ranges is made twice. -/
theorem nodup_documentLookups (method : MethodHandle) (points : List SequencePoint)
    (ends : Lookup → Bool) :
    (Lookup.sequencePoints method ::
      upTo ends ((documentsOf points).map .documentName)).Nodup := by
  have hdocuments : ((documentsOf points).map Lookup.documentName).Nodup :=
    (List.nodup_map_iff fun first second h => Lookup.documentName.inj h).2 (nodup_eraseDups _)
  have hstart := upTo_prefix ends ((documentsOf points).map .documentName)
  refine List.nodup_cons.2 ⟨?_, hdocuments.sublist hstart.sublist⟩
  intro hmem
  obtain ⟨document, -, hdocument⟩ := List.mem_map.1 (hstart.subset hmem)
  cases hdocument

theorem sourcePoints_of_points {store : Store} {method : MethodHandle}
    {points : List SequencePoint} (h : store (.sequencePoints method) = .ok points) :
    ((sourcePoints method).run store).outcome =
        ((resolveDocuments [] points).run store).outcome ∧
      ((sourcePoints method).run store).lookups =
        .sequencePoints method :: ((resolveDocuments [] points).run store).lookups := by
  rw [sourcePoints, run_ask_bind_ok h]
  cases hresolved : ((resolveDocuments [] points).run store).outcome with
  | error e =>
    rw [run_bind_error hresolved]
    exact ⟨rfl, rfl⟩
  | ok resolved =>
    rw [run_bind_ok hresolved]
    refine ⟨rfl, ?_⟩
    show [Lookup.sequencePoints method] ++
      (((resolveDocuments [] points).run store).lookups ++ []) = _
    rw [List.append_nil]
    rfl

theorem namesOnce_of_points {store : Store} {method : MethodHandle}
    {points : List SequencePoint} (h : store (.sequencePoints method) = .ok points) :
    NamesOnce store method points ((sourcePoints method).run store) := by
  have hmemo := NameMemo.agrees_nil store
  have houtcome : ((sourcePoints method).run store).outcome = points.mapM (ownRange store) :=
    (sourcePoints_of_points h).1.trans (resolveDocuments_outcome hmemo points)
  have hlookups : ((sourcePoints method).run store).lookups =
      .sequencePoints method :: upTo store.fails ((documentsOf points).map .documentName) := by
    rw [(sourcePoints_of_points h).2, resolveDocuments_lookups hmemo, newDocuments_nil]
  constructor
  case outcome => exact houtcome
  case ok_iff =>
    intro found
    rw [houtcome, mapM_eq_ok_iff]
    simp only [ownRange_eq_ok_iff]
  case error_iff =>
    intro e
    rw [houtcome, mapM_eq_error_iff]
    simp only [exists_ownRange_iff, ownRange_eq_error_iff]
    refine exists_congr fun before => exists_congr fun point => exists_congr fun after => ?_
    constructor
    · rintro ⟨hsplit, hbefore, document, hdocument, hfailed⟩
      exact ⟨document, hsplit, hbefore, hdocument, hfailed⟩
    · rintro ⟨document, hsplit, hbefore, hdocument, hfailed⟩
      exact ⟨hsplit, hbefore, document, hdocument, hfailed⟩
  case lookups => exact hlookups
  case nodup =>
    rw [hlookups]
    exact nodup_documentLookups method points store.fails

/-- **Names are looked up once.** A query for the source ranges of a method ends with the error of
the points if there are none. Otherwise it gives what resolving each point on its own would give,
but looks each document up at most once. -/
theorem sourcePoints_namesOnce (store : Store) (method : MethodHandle) :
    let run := (sourcePoints method).run store
    match store (.sequencePoints method) with
    | .error e => run.outcome = .error e ∧ run.lookups = [.sequencePoints method]
    | .ok points => NamesOnce store method points run := by
  intro run
  cases hpoints : store (.sequencePoints method) with
  | error e =>
    have hrun : run = ⟨.error e, [.sequencePoints method], []⟩ := run_ask_bind_error hpoints _
    exact ⟨by rw [hrun], by rw [hrun]⟩
  | ok points => exact namesOnce_of_points hpoints

end PortablePdb.Query
