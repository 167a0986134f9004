import Mathlib.Data.List.Infix
import PortablePdb.Proofs.CustomDebug.ElementNames
import PortablePdb.Proofs.CustomDebug.FlagBits
import PortablePdb.Query.TypeFacts
import PortablePdb.Store.Snapshot

/-!
# What a scan of the custom debug records finds

The scan stops as soon as both facts are known, so records behind that point, also those that
cannot be fetched, have no say. What it finds is said here without a scan: the records that count
are those of the shortest prefix that settles both facts (`settling`), and each fact is read off the
first of them that is relevant for it (`facts`).

The scan is followed record by record. It has gone through records that do not settle both facts
yet, and it knows what they say (`scanRecords_outcome`). The readers that it runs on their values
may fail, but never do (`decoder_outcome`).

* `typeFacts_outcome`: what is found out about the type of a slot.
-/

namespace PortablePdb

/-! ## Relevant records -/

/-- A record is relevant for a fact about a row if it is attached to the row, has a value, and
holds that fact. -/
def CustomDebug.Record.Relevant (target : Token) (fact : TypeFact)
    (record : CustomDebug.Record) : Prop :=
  record.parent = target ∧ record.value ≠ [] ∧ record.guid = some fact.kind.guid

instance (target : Token) (fact : TypeFact) :
    DecidablePred (CustomDebug.Record.Relevant target fact) := fun record =>
  inferInstanceAs (Decidable (record.parent = target ∧ record.value ≠ [] ∧
    record.guid = some fact.kind.guid))

namespace Query

open CustomDebug (Record)

/-- The records with these handles, less those that cannot be fetched. -/
def fetched (store : Store) (handles : List CustomDebugHandle) : List Record :=
  handles.filterMap fun handle => (store (.customDebugRecord handle)).toOption

/-- Why the first of these records that cannot be fetched cannot be fetched. -/
def firstFailure? (store : Store) (handles : List CustomDebugHandle) : Option DebugError :=
  handles.findSome? fun handle =>
    match store (.customDebugRecord handle) with
    | .ok _ => none
    | .error e => some e

/-- Some records settle both facts about a row if each fact has a relevant one among them. -/
def Settles (store : Store) (target : Token) (handles : List CustomDebugHandle) : Prop :=
  (∃ record ∈ fetched store handles, record.Relevant target .tupleElementNames) ∧
    ∃ record ∈ fetched store handles, record.Relevant target .dynamicFlags

instance (store : Store) (target : Token) : DecidablePred (Settles store target) := fun handles =>
  inferInstanceAs (Decidable ((∃ record ∈ fetched store handles,
    record.Relevant target .tupleElementNames) ∧
      ∃ record ∈ fetched store handles, record.Relevant target .dynamicFlags))

/-- The shortest prefix that settles both facts, or all records if there is none. -/
def settling (store : Store) (target : Token) (handles : List CustomDebugHandle) :
    List CustomDebugHandle :=
  (handles.inits.find? fun start => Settles store target start).getD handles

/-- The first of some records that is relevant for a fact. -/
def firstRelevant? (target : Token) (records : List Record) (fact : TypeFact) : Option Record :=
  records.find? fun record => record.Relevant target fact

/-- What some records say about a row. -/
def facts (store : Store) (target : Token) (handles : List CustomDebugHandle) : ExtraTypeInfo where
  tupleElementNames := (firstRelevant? target (fetched store handles) .tupleElementNames).map
    fun record => TupleNames.decode record.value
  dynamicFlags := (firstRelevant? target (fetched store handles) .dynamicFlags).map
    fun record => DynamicFlags.decode record.value

/-! ## Reading values -/

/-- What a value says of a fact. -/
def meaning (value : Bytes) : (fact : TypeFact) → fact.Value
  | .tupleElementNames => TupleNames.decode value
  | .dynamicFlags => DynamicFlags.decode value

/-- Any bytes hold a value of either fact, so reading it does not fail. -/
theorem decoder_outcome (fact : TypeFact) (value : Bytes) :
    (fact.decoder value ()).outcome = .ok (meaning value fact) := by
  cases fact with
  | tupleElementNames =>
    have hread := (TupleNames.readNames_start value).1
    rcases hnames : TupleNames.readNames (.start value) with ⟨result, behind⟩
    rw [hnames] at hread
    obtain rfl : result = .ok (TupleNames.decode value) := hread
    simp only [TypeFact.decoder, hnames]
    rfl
  | dynamicFlags => exact congrArg Prod.fst (DynamicFlags.readFlags_start value)

theorem get_facts (store : Store) (target : Token) (handles : List CustomDebugHandle)
    (fact : TypeFact) :
    (facts store target handles).get fact =
      (firstRelevant? target (fetched store handles) fact).map fun record =>
        meaning record.value fact := by
  cases fact <;> rfl

/-! ## One record -/

theorem relevant_iff {target : Token} {fact : TypeFact} {record : Record} :
    record.Relevant target fact ↔
      record.parent = target ∧ record.value ≠ [] ∧ record.kind? = some (.known fact.kind) := by
  have hkind : record.kind? = some (.known fact.kind) ↔ record.guid = some fact.kind.guid := by
    rw [Record.kind?, Option.map_eq_some_iff]
    constructor
    · rintro ⟨guid, hguid, hknown⟩
      rw [hguid, CustomDebug.Kind.ofGuid_eq_known_iff.1 hknown]
    · intro hguid
      exact ⟨_, hguid, CustomDebug.Kind.ofGuid_known fact.kind⟩
  rw [hkind]
  rfl

/-- What a record says of a fact about a row. -/
def says? (target : Token) (record : Record) (fact : TypeFact) : Option fact.Value :=
  if record.Relevant target fact then some (meaning record.value fact) else none

theorem says?_of_not_relevant {target : Token} {record : Record} {fact : TypeFact}
    (h : ¬ record.Relevant target fact) : says? target record fact = none := if_neg h

/-- A record whose kind holds no fact is not relevant for any. -/
theorem not_relevant_of_kind {target : Token} {record : Record}
    (h : ∀ fact : TypeFact, record.kind? ≠ some (.known fact.kind)) (fact : TypeFact) :
    ¬ record.Relevant target fact := fun hrelevant => h fact (relevant_iff.1 hrelevant).2.2

/-- A record is relevant for at most one fact. -/
theorem relevant_unique {target : Token} {record : Record} {fact other : TypeFact}
    (h : record.Relevant target fact) (h' : record.Relevant target other) : fact = other := by
  have hfact := (relevant_iff.1 h).2.2
  rw [(relevant_iff.1 h').2.2] at hfact
  injection hfact with hknown
  injection hknown with hkind
  exact TypeFact.kind_injective hkind.symm

theorem get_eq_or_says? {target : Token} {record : Record}
    (h : ∀ fact, ¬ record.Relevant target fact) (info : ExtraTypeInfo) (fact : TypeFact) :
    info.get fact = (info.get fact).or (says? target record fact) := by
  rw [says?_of_not_relevant (h fact), Option.or_none]

theorem get_offer_eq_or_says? {target : Token} {record : Record} {told : TypeFact}
    (h : record.Relevant target told) (info : ExtraTypeInfo) (fact : TypeFact) :
    (info.offer ⟨told, told.decoder record.value⟩).info.get fact =
      (info.get fact).or (says? target record fact) := by
  by_cases hsame : fact = told
  · subst hsame
    rw [ExtraTypeInfo.get_offer_self, decoder_outcome, says?, if_pos h]
    rfl
  · have hother : ¬ record.Relevant target fact := fun h' => hsame (relevant_unique h' h)
    rw [ExtraTypeInfo.get_offer_of_ne info hsame, says?_of_not_relevant hother, Option.or_none]

/-- A record for a fact that is known is passed over, and any other one can be read. -/
theorem exists_offer_outcome (fact : TypeFact) (value : Bytes) (info : ExtraTypeInfo) :
    ∃ taken, (info.offer ⟨fact, fact.decoder value⟩).outcome = .ok taken := by
  cases hknown : info.get fact with
  | some known => exact ⟨false, congrArg _ (ExtraTypeInfo.offer_of_some hknown)⟩
  | none =>
    exact ⟨true, congrArg _ (ExtraTypeInfo.offer_of_ok hknown (decoder_outcome fact value))⟩

theorem learn_outcome (target : LocalVariableHandle) (handle : CustomDebugHandle)
    (fact : TypeFact) (value : Bytes) (info : ExtraTypeInfo) (store : Store) :
    ((learn target handle fact value info).run store).outcome =
      .ok (info.offer ⟨fact, fact.decoder value⟩).info := by
  obtain ⟨taken, htaken⟩ := exists_offer_outcome fact value info
  have hsettle : ((settle (info.offer ⟨fact, fact.decoder value⟩)).run store).outcome =
      .ok taken := htaken
  rw [learn, outcome_bind_ok hsettle]
  rfl

/-- Each fact that is not known yet is taken from the record, if the record is relevant for it. -/
theorem inspect_outcome (target : LocalVariableHandle) (handle : CustomDebugHandle)
    (record : Record) (info : ExtraTypeInfo) (store : Store) :
    ∃ after, ((inspect target handle record info).run store).outcome = .ok after ∧
      ∀ fact, after.get fact = (info.get fact).or (says? target.token record fact) := by
  unfold inspect
  by_cases hattached : record.parentTable? = some .localVariable ∧
      record.parent = target.token ∧ record.value ≠ []
  · rw [if_pos hattached]
    obtain ⟨-, hparent, hvalue⟩ := hattached
    cases hfound : record.kind? with
    | none =>
      refine ⟨info, rfl, get_eq_or_says? (not_relevant_of_kind ?_) info⟩
      intro fact
      simp [hfound]
    | some kind =>
      cases kind with
      | unknown guid =>
        refine ⟨info, rfl, get_eq_or_says? (not_relevant_of_kind ?_) info⟩
        intro fact
        simp [hfound]
      | known kind =>
        cases hfact : TypeFact.ofKind? kind with
        | none =>
          refine ⟨info, by simp only [hfact]; rfl, ?_⟩
          refine get_eq_or_says? (not_relevant_of_kind ?_) info
          intro fact hknown
          obtain rfl : kind = fact.kind := by simpa [hfound] using hknown
          rw [TypeFact.ofKind?_eq_some_iff.2 rfl] at hfact
          cases hfact
        | some told =>
          obtain rfl : kind = told.kind := TypeFact.ofKind?_eq_some_iff.1 hfact
          have hrelevant : record.Relevant target.token told :=
            relevant_iff.2 ⟨hparent, hvalue, hfound⟩
          have hlearn := learn_outcome target handle told record.value info store
          refine ⟨_, by simp only [hfact]; exact hlearn, ?_⟩
          exact get_offer_eq_or_says? hrelevant info
  · rw [if_neg hattached]
    refine ⟨info, rfl, get_eq_or_says? ?_ info⟩
    intro fact h
    exact hattached ⟨Record.parentTable?_of_parent h.1, h.1, h.2.1⟩

/-! ## Prefixes of the records -/

section

variable {store : Store} {target : Token} {handle : CustomDebugHandle} {record : Record}
  {before more : List CustomDebugHandle}

theorem fetched_append (store : Store) (before more : List CustomDebugHandle) :
    fetched store (before ++ more) = fetched store before ++ fetched store more :=
  List.filterMap_append

theorem fetched_snoc_of_ok (before : List CustomDebugHandle)
    (h : store (.customDebugRecord handle) = .ok record) :
    fetched store (before ++ [handle]) = fetched store before ++ [record] := by
  rw [fetched_append]
  simp [fetched, h, Except.toOption]

theorem firstFailure?_snoc_of_ok (hbefore : firstFailure? store before = none)
    (h : store (.customDebugRecord handle) = .ok record) :
    firstFailure? store (before ++ [handle]) = none := by
  rw [firstFailure?, List.findSome?_append, ← firstFailure?, hbefore]
  simp [h]

theorem firstFailure?_append_of_error {e : DebugError} (hbefore : firstFailure? store before = none)
    (h : store (.customDebugRecord handle) = .error e) (more : List CustomDebugHandle) :
    firstFailure? store (before ++ handle :: more) = some e := by
  rw [firstFailure?, List.findSome?_append, ← firstFailure?, hbefore]
  simp [h]

theorem Settles.append (h : Settles store target before) (more : List CustomDebugHandle) :
    Settles store target (before ++ more) := by
  obtain ⟨⟨first, hfirst, hnames⟩, ⟨second, hsecond, hflags⟩⟩ := h
  rw [Settles, fetched_append]
  exact ⟨⟨first, List.mem_append_left _ hfirst, hnames⟩,
    ⟨second, List.mem_append_left _ hsecond, hflags⟩⟩

theorem find?_inits_eq_none (h : ¬ Settles store target before) :
    before.inits.find? (fun start => decide (Settles store target start)) = none := by
  refine List.find?_eq_none.2 ?_
  intro start hstart hsettles
  obtain ⟨rest, rfl⟩ := (List.mem_inits _ _).1 hstart
  exact h ((of_decide_eq_true hsettles).append rest)

theorem settling_eq_self (h : ¬ Settles store target before) :
    settling store target before = before := by
  rw [settling, find?_inits_eq_none h, Option.getD_none]

theorem settling_prefix (store : Store) (target : Token) (handles : List CustomDebugHandle) :
    settling store target handles <+: handles := by
  rw [settling]
  cases hfind : handles.inits.find? fun start => decide (Settles store target start) with
  | none => exact List.prefix_rfl
  | some start => exact (List.mem_inits _ _).1 (List.mem_of_find?_eq_some hfind)

/-- Behind a prefix that does not settle both facts the search goes on with longer ones. -/
theorem settling_append (h : ¬ Settles store target before) (handle : CustomDebugHandle)
    (more : List CustomDebugHandle) :
    settling store target (before ++ handle :: more) =
      ((more.inits.map fun start => before ++ handle :: start).find? fun start =>
        Settles store target start).getD (before ++ handle :: more) := by
  have hinits : (before ++ handle :: more).inits =
      before.inits ++ more.inits.map fun start => before ++ handle :: start := by
    rw [List.inits_append, List.inits_cons, List.tail_cons, List.map_map]
    rfl
  rw [settling, hinits, List.find?_append, find?_inits_eq_none h, Option.none_or]

theorem settling_of_settles (h : ¬ Settles store target before)
    (hsettles : Settles store target (before ++ [handle])) (more : List CustomDebugHandle) :
    settling store target (before ++ handle :: more) = before ++ [handle] := by
  rw [settling_append h]
  cases more with
  | nil => simp [hsettles]
  | cons next more => simp [hsettles]

theorem exists_settling_eq (h : ¬ Settles store target before) (handle : CustomDebugHandle)
    (more : List CustomDebugHandle) :
    ∃ rest, settling store target (before ++ handle :: more) = before ++ handle :: rest := by
  rw [settling_append h]
  cases hfind : (more.inits.map fun start => before ++ handle :: start).find? fun start =>
      decide (Settles store target start) with
  | none => exact ⟨more, rfl⟩
  | some found =>
    obtain ⟨rest, -, hrest⟩ := List.mem_map.1 (List.mem_of_find?_eq_some hfind)
    exact ⟨rest, hrest.symm⟩

/-! ## What has been found out so far -/

theorem get_facts_append (before more : List CustomDebugHandle) (fact : TypeFact) :
    (facts store target (before ++ more)).get fact =
      ((facts store target before).get fact).or ((facts store target more).get fact) := by
  simp only [get_facts, fetched_append, firstRelevant?, List.find?_append, Option.map_or]

theorem get_facts_snoc (before : List CustomDebugHandle)
    (h : store (.customDebugRecord handle) = .ok record) (fact : TypeFact) :
    (facts store target (before ++ [handle])).get fact =
      ((facts store target before).get fact).or (says? target record fact) := by
  have hfetched : fetched store [handle] = [record] := fetched_snoc_of_ok [] h
  rw [get_facts_append, get_facts, get_facts, hfetched]
  congr 1
  by_cases hrelevant : record.Relevant target fact
  · rw [says?, if_pos hrelevant]
    simp [firstRelevant?, hrelevant]
  · rw [says?_of_not_relevant hrelevant]
    simp [firstRelevant?, hrelevant]

theorem isSome_get_facts_iff (fact : TypeFact) :
    ((facts store target before).get fact).isSome = true ↔
      ∃ record ∈ fetched store before, record.Relevant target fact := by
  rw [get_facts, Option.isSome_map, firstRelevant?, List.find?_isSome]
  simp only [decide_eq_true_eq]

theorem isComplete_facts_iff : (facts store target before).isComplete = true ↔
    Settles store target before := by
  rw [ExtraTypeInfo.isComplete, Bool.and_eq_true]
  exact and_congr (isSome_get_facts_iff .tupleElementNames) (isSome_get_facts_iff .dynamicFlags)

/-- What records say that settle both facts is not changed by more of them. -/
theorem facts_append (h : Settles store target before) (more : List CustomDebugHandle) :
    facts store target (before ++ more) = facts store target before := by
  refine ExtraTypeInfo.ext_get fun fact => ?_
  have hknown := (ExtraTypeInfo.isComplete_iff _).1 (isComplete_facts_iff.2 h) fact
  rw [get_facts_append, Option.or_of_isSome hknown]

theorem facts_settling (store : Store) (target : Token) (handles : List CustomDebugHandle) :
    facts store target (settling store target handles) = facts store target handles := by
  rw [settling]
  cases hfind : handles.inits.find? fun start => decide (Settles store target start) with
  | none => rfl
  | some start =>
    obtain ⟨rest, rfl⟩ := (List.mem_inits _ _).1 (List.mem_of_find?_eq_some hfind)
    have hsettles := List.find?_some hfind
    exact (facts_append (of_decide_eq_true hsettles) rest).symm

/-- Taking what the next record tells keeps up with what all records so far say. -/
theorem inspect_facts (target : LocalVariableHandle) (handle : CustomDebugHandle)
    (before : List CustomDebugHandle) (h : store (.customDebugRecord handle) = .ok record) :
    ((inspect target handle record (facts store target.token before)).run store).outcome =
      .ok (facts store target.token (before ++ [handle])) := by
  obtain ⟨after, hafter, hget⟩ :=
    inspect_outcome target handle record (facts store target.token before) store
  have hfacts : after = facts store target.token (before ++ [handle]) := by
    refine ExtraTypeInfo.ext_get ?_
    intro fact
    rw [hget fact, get_facts_snoc before h]
  rw [hafter, hfacts]

/-! ## The scan -/

/-- What is found by the records in `handles`, if nothing goes wrong before both facts are
settled. -/
def scanned (store : Store) (target : Token) (handles : List CustomDebugHandle) :
    Except DebugError ExtraTypeInfo :=
  match firstFailure? store (settling store target handles) with
  | some e => .error e
  | none => .ok (facts store target (settling store target handles))

/-- Where no record fails to be fetched, all records have their say. -/
theorem scanned_of_not_failed {handles : List CustomDebugHandle}
    (h : firstFailure? store handles = none) :
    scanned store target handles = .ok (facts store target handles) := by
  obtain ⟨rest, hrest⟩ := settling_prefix store target handles
  have hsettling : firstFailure? store (settling store target handles) = none := by
    rw [← hrest, firstFailure?, List.findSome?_append] at h
    exact (Option.or_eq_none_iff.1 h).1
  rw [scanned, hsettling, facts_settling]

theorem scanRecords_outcome {target : LocalVariableHandle} (before : List CustomDebugHandle)
    (handles : List CustomDebugHandle) (hbefore : firstFailure? store before = none)
    (hopen : ¬ Settles store target.token before) :
    ((scanRecords target handles (facts store target.token before)).run store).outcome =
      scanned store target.token (before ++ handles) := by
  induction handles generalizing before with
  | nil =>
    rw [List.append_nil, scanned, settling_eq_self hopen, hbefore]
    rfl
  | cons handle more ih =>
    unfold scanRecords
    cases hrecord : store (.customDebugRecord handle) with
    | error e =>
      -- The record counts, since the ones before it do not settle both facts.
      obtain ⟨rest, hrest⟩ := exists_settling_eq hopen handle more
      rw [run_ask_bind_error hrecord, scanned, hrest, firstFailure?_append_of_error hbefore hrecord]
    | ok record =>
      have hinspect := inspect_facts target handle before hrecord
      have hnext := firstFailure?_snoc_of_ok hbefore hrecord
      rw [run_ask_bind_ok hrecord, run_bind_ok hinspect]
      by_cases hsettles : Settles store target.token (before ++ [handle])
      · rw [if_pos (isComplete_facts_iff.2 hsettles), scanned, settling_of_settles hopen hsettles,
          hnext]
        rfl
      · have hincomplete := mt isComplete_facts_iff.1 hsettles
        rw [if_neg hincomplete, ih (before ++ [handle]) hnext hsettles, List.append_assoc]
        rfl

theorem not_settles_nil (store : Store) (target : Token) : ¬ Settles store target [] := by
  rintro ⟨⟨record, hrecord, -⟩, -⟩
  cases hrecord

end

/-- What the query for all records finds about a variable. -/
theorem collect_outcome (target : LocalVariableHandle) (store : Store) :
    ((collect target).run store).outcome =
      match store .customDebugInformation with
      | .error e => .error e
      | .ok handles =>
        match scanned store target.token handles with
        | .error e => .error e
        | .ok found =>
          .ok (if found.tupleElementNames.isSome ∨ found.dynamicFlags.isSome then some found
            else none) := by
  rw [collect]
  cases hlist : store .customDebugInformation with
  | error e => rw [run_ask_bind_error hlist]
  | ok handles =>
    have hscan : ((scanRecords target handles .empty).run store).outcome =
        scanned store target.token handles :=
      scanRecords_outcome [] handles rfl (not_settles_nil store target.token)
    simp only [run_ask_bind_ok hlist, run_bind_pure, hscan]
    cases scanned store target.token handles with
    | error e => rfl
    | ok info =>
      by_cases hknown : info.tupleElementNames.isSome ∨ info.dynamicFlags.isSome
      · have hsome : ¬ info.isEmpty = true := fun hempty =>
          (ExtraTypeInfo.isEmpty_iff_not_isSome info).1 hempty hknown
        simp only [Except.map, if_pos hknown, if_neg hsome]
      · have hempty := (ExtraTypeInfo.isEmpty_iff_not_isSome info).2 hknown
        simp only [Except.map, if_neg hknown, if_pos hempty]

/-- **What is found out about the type of a slot.** An early end of the scan cannot be noticed:
only the records up to the point where both facts are settled count, each fact is what the first
relevant one among them says, and the first of them that cannot be fetched is the error. -/
theorem typeFacts_outcome (method : MethodHandle) (index : Nat) (store : Store) :
    ((typeFacts method index).run store).outcome =
      match ((findVariable method index).run store).outcome with
      | .error e => .error e
      | .ok none => .ok none
      | .ok (some target) =>
        match store .customDebugInformation with
        | .error e => .error e
        | .ok handles =>
          match scanned store target.token handles with
          | .error e => .error e
          | .ok found =>
            .ok (if found.tupleElementNames.isSome ∨ found.dynamicFlags.isSome then some found
              else none) := by
  unfold typeFacts
  cases hfind : ((findVariable method index).run store).outcome with
  | error e => rw [run_bind_error hfind]
  | ok found =>
    rw [run_bind_ok hfind]
    cases found with
    | none => rfl
    | some target => exact collect_outcome target store

/-- A variable with names in the third of seven records and flags in the sixth. The others are about
a method, have no value, come second, or are of an unknown kind, and the last cannot be fetched. -/
def recordedSnapshot : Snapshot :=
  let target := (.first : LocalVariableHandle).token
  let names := some CustomDebug.Identifier.tupleElementNames
  let flags := some CustomDebug.Identifier.dynamicLocalVariables
  let rows : List Record := [⟨(.first : MethodHandle).token, flags, [1]⟩, ⟨target, names, []⟩,
    ⟨target, names, [0x61, 0, 0x20, 0, 0x62]⟩, ⟨target, names, [0x63, 0]⟩,
    ⟨target, some ⟨1, 2, 3, 4⟩, [1]⟩, ⟨target, flags, [5]⟩]
  let handles := (List.range 7).filterMap fun k => Handle.ofRid? (k + 1)
  { points := []
    scopes := [(.first, .ok [.first])]
    scopeVariables := [(.first, .ok [.first])]
    localVariables := [(.first, .ok ⟨.none, 4, "x"⟩)]
    documents := []
    recordList := .ok handles
    records := handles.zip (rows.map .ok ++ [.error .empty]) }

theorem typeFacts_outcome_bothFacts :
    ((typeFacts .first 4).run recordedSnapshot.store).outcome =
      .ok (some ⟨some [some "a", none],
        some [true, false, true, false, false, false, false, false]⟩) := by
  have hfind : ((findVariable .first 4).run recordedSnapshot.store).outcome =
      .ok (some .first) := by decide +kernel
  rw [typeFacts_outcome, hfind]
  decide +kernel

end Query

end PortablePdb
