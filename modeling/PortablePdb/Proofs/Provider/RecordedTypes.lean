import PortablePdb.Proofs.Metadata.Log
import PortablePdb.Proofs.Provider.Sessions
import PortablePdb.Proofs.Query.RecordScan
import PortablePdb.Proofs.Query.SlotSearch

/-!
# Types that were recorded

If all steps succeed, what a provider finds out about the type of a slot can be read off the steps
(`BuildStep.recordedInfo?`). The variable is the first one of the slot that the steps declare. No
lookup fails for it, since the scopes must have fitted into the tables (`fit_of_allSucceed`), nor
for any record. So it makes no difference that a scan of the records stops early, and each fact is
what the first step says that records it for this variable, be it before the variable was declared
or behind.

* `typeFacts_of_steps`: what a provider replies, whatever else it is asked.
-/

namespace PortablePdb

/-! ## What the steps say -/

namespace BuildStep

/-- The variables of a method with their rows, in the order in which the steps declare them. -/
def declaredVariables (steps : List BuildStep) (method : MethodHandle) :
    List (LocalVariableHandle × LocalVariable) :=
  ((addedScopes steps).filter (·.declaration.method = method)).flatMap fun s =>
    s.handles.localVariables.zip s.declaration.localVariables

/-- The first variable of a method that is declared for a slot, with its row. -/
def firstDeclared? (steps : List BuildStep) (method : MethodHandle) (index : Nat) :
    Option (LocalVariableHandle × LocalVariable) :=
  (declaredVariables steps method).find? fun (_, row) => row.index = index

/-- The record of the steps that counts for a fact about a variable: the first one that is attached
to the token of the variable, is of the kind of the fact, and has a value. -/
def recorded? (steps : List BuildStep) (target : LocalVariableHandle) (fact : TypeFact) :
    Option CustomDebug.Record :=
  (steps.filterMap (·.record?)).find? fun record =>
    record.parent.value = 0x33000000 + target.rid ∧ record.guid = some fact.kind.guid ∧
      record.value ≠ []

/-- What the steps record about the type of a variable. -/
def recordedFacts (steps : List BuildStep) (target : LocalVariableHandle) : ExtraTypeInfo where
  tupleElementNames := (recorded? steps target .tupleElementNames).map fun record =>
    TupleNames.decode record.value
  dynamicFlags := (recorded? steps target .dynamicFlags).map fun record =>
    DynamicFlags.decode record.value

/-- What the steps record about the type of a slot, if they record anything. -/
def recordedInfo? (steps : List BuildStep) (method : MethodHandle) (index : Nat) :
    Option ExtraTypeInfo :=
  match firstDeclared? steps method index with
  | none => none
  | some (target, _) =>
    let info := recordedFacts steps target
    if info.tupleElementNames.isSome ∨ info.dynamicFlags.isSome then some info else none

end BuildStep

/-! ## Lookups that cannot fail -/

namespace Metadata

open Query

theorem firstFailure?_handles (metadata : Metadata) :
    firstFailure? metadata.store metadata.records.handles = none := by
  refine List.findSome?_eq_none_iff.2 fun handle hhandle => ?_
  rw [← Table.map_fst_entries] at hhandle
  obtain ⟨⟨handle, row⟩, hrow, rfl⟩ := List.mem_map.1 hhandle
  rw [store_customDebugRecord (Table.mem_entries_iff.1 hrow)]

theorem fetched_handles (metadata : Metadata) :
    fetched metadata.store metadata.records.handles =
      metadata.records.entries.map Prod.snd := by
  rw [fetched, ← Table.map_fst_entries, List.filterMap_map, ← List.filterMap_eq_map]
  refine List.filterMap_congr fun entry hrow => ?_
  obtain ⟨handle, row⟩ := entry
  simp [store_customDebugRecord (Table.mem_entries_iff.1 hrow), Except.toOption]

/-! ## Scopes that were added -/

theorem hasRoom_of_add? {table : TableId} {Row : Type} {rows next : Table table Row} {row : Row}
    {handle : Handle table} (h : rows.add? row = some (handle, next)) : rows.HasRoom 1 := by
  have hsize := next.size_lt
  rw [(Table.size_add h).1] at hsize
  exact hsize

theorem hasRoom_of_addVariables {added : List LocalVariable}
    {rows : Table .localVariable LocalVariable} {handles : List LocalVariableHandle}
    (h : (addVariables added rows).1 = .ok handles) : rows.HasRoom added.length := by
  induction added generalizing rows handles with
  | nil => exact rows.size_lt
  | cons row more ih =>
    simp only [addVariables] at h
    split at h
    · cases h
    · rename_i handle next hadd
      obtain ⟨rest, hrest, -⟩ := map_eq_ok_iff.1 h
      have hmore : next.size + more.length < rowLimit := ih hrest
      rw [(Table.size_add hadd).1] at hmore
      show rows.size + (more.length + 1) < rowLimit
      omega

theorem hasRoom_of_addScope {metadata : Metadata} {method : MethodHandle} {start length : UInt32}
    {localVariables : List LocalVariable} {handles : ScopeHandles}
    (h : (metadata.addScope method start length localVariables).1 = .ok handles) :
    metadata.scopes.HasRoom 1 ∧ metadata.localVariables.HasRoom 1 ∧
      metadata.localVariables.HasRoom localVariables.length := by
  unfold addScope at h
  split at h
  · rename_i scope scopes first hscope hfirst
    have hroom : metadata.localVariables.HasRoom 1 :=
      (Handle.isSome_ofRid?.1 (Option.isSome_of_eq_some hfirst)).2
    simp only at h
    split at h
    · rename_i added hadded
      exact ⟨hasRoom_of_add? hscope, hroom, hasRoom_of_addVariables hadded⟩
    · cases h
  · cases h

/-- Scopes that were added fit into the tables. -/
theorem fit_of_allSucceed {steps : List BuildStep} (h : BuildStep.AllSucceed steps) :
    ScopeDeclaration.Fit (BuildStep.declarations steps) := by
  induction steps using List.reverseRecOn with
  | nil => exact ⟨by decide, by decide, by decide⟩
  | append_singleton steps step ih =>
    obtain ⟨hsteps, receipt, hreceipt⟩ := h.of_concat
    have hfit := ih hsteps
    rw [BuildStep.declarations, List.filterMap_append, ← BuildStep.declarations]
    cases step with
    | scope owner start length localVariables =>
      obtain ⟨hdeclared, hlaid⟩ := laid_build hfit
      obtain ⟨hscopes, hfirst, hvariables⟩ := hasRoom_of_addScope hreceipt
      rw [← hdeclared]
      exact (hlaid.fit_concat_iff ⟨owner, start, length, localVariables⟩).2
        ⟨hscopes, hvariables, hfirst⟩
    | _ =>
      rw [List.filterMap_cons_none rfl, List.filterMap_nil, List.append_nil]
      exact hfit

/-! ## What is found -/

open BuildStep (AllSucceed recorded? recordedFacts recordedInfo? firstDeclared?)

variable {steps : List BuildStep}

theorem map_addedRecords_of_allSucceed (h : AllSucceed steps) :
    (BuildStep.addedRecords steps).map Prod.snd = steps.filterMap (·.record?) := by
  refine BuildStep.map_addedRecords ?_
  intro row e houtcome
  cases h _ houtcome

/-- A record is attached to a variable by the token of the variable and by no other. -/
theorem parent_eq_token_iff {parent : Token} {target : LocalVariableHandle} :
    parent = target.token ↔ parent.value = 0x33000000 + target.rid := by
  have hbase : (TableId.code .localVariable).toNat * rowLimit = 0x33000000 := by decide
  have hvalue : target.token.value = 0x33000000 + target.rid := congrArg (· + target.rid) hbase
  constructor
  · rintro rfl
    exact hvalue
  · intro h
    rw [← Token.ofValue_value parent, h, ← hvalue, Token.ofValue_value]

theorem facts_handles (h : AllSucceed steps) (target : LocalVariableHandle) :
    facts (build steps).store target.token (build steps).records.handles =
      recordedFacts steps target := by
  have hfetched : fetched (build steps).store (build steps).records.handles =
      steps.filterMap (·.record?) := by
    rw [fetched_handles, entries_records_build, map_addedRecords_of_allSucceed h]
  have hrecord (fact : TypeFact) : firstRelevant? target.token (steps.filterMap (·.record?)) fact =
      recorded? steps target fact := by
    rw [firstRelevant?, recorded?]
    congr 1
    funext record
    rw [decide_eq_decide, CustomDebug.Record.Relevant, parent_eq_token_iff]
    exact and_congr Iff.rfl and_comm
  rw [facts, hfetched, hrecord, hrecord, recordedFacts]

theorem typeFacts_outcome_build (h : AllSucceed steps) (method : MethodHandle) (index : Nat) :
    ((typeFacts method index).run (build steps).store).outcome =
      .ok (recordedInfo? steps method index) := by
  obtain ⟨-, hlaid⟩ := laid_build (fit_of_allSucceed h)
  have hfirst : ((firstOfSlot method index).run (build steps).store).outcome =
      .ok (firstDeclared? steps method index) := firstOfSlot_outcome (hlaid.walk_outcome method)
  have hfind : ((findVariable method index).run (build steps).store).outcome =
      .ok ((firstDeclared? steps method index).map fun (handle, _) => handle) := by
    rw [findVariable, run_bind_pure, hfirst]
    rfl
  rw [typeFacts, outcome_bind_ok hfind, recordedInfo?]
  cases firstDeclared? steps method index with
  | none => rfl
  | some found =>
    obtain ⟨target, row⟩ := found
    have hlist : (build steps).store .customDebugInformation =
        .ok (build steps).records.handles := rfl
    simp only [Option.map_some]
    rw [collect_outcome, hlist]
    simp only [scanned_of_not_failed (firstFailure?_handles (build steps)), facts_handles h]

end Metadata

/-! ## Replies -/

namespace Provider

open BuildStep (AllSucceed recordedInfo?)

/-- Over one store a new provider replies to each request as if it were the only one, whether it
keeps answers or not. -/
theorem exists_reply_of_same_store {provider : Provider} (hfresh : provider.cache = ∅)
    {visits : List Visit} {store : Option Store} (hstores : ∀ visit ∈ visits, visit.store = store)
    {k : Nat} {visit : Visit} (hvisit : visits[k]? = some visit) :
    ∃ run, (provider.answerAll visits)[k]? = some ⟨visit.request, run⟩ ∧
      run.outcome = (visit.request.runOn store).outcome := by
  have hresults : (provider.answerAll visits).map Reply.result =
      (visits.map Visit.plain).map Reply.result := by
    cases hkeeps : provider.config.keepsTypeInfo with
    | true => exact result_of_same_store hkeeps hfresh hstores
    | false => rw [answerAll_of_not_keeping hkeeps]
  have hresult : ((provider.answerAll visits)[k]?).map Reply.result =
      some visit.plain.result := by
    rw [← List.getElem?_map, hresults, List.getElem?_map, List.getElem?_map, hvisit]
    rfl
  obtain ⟨⟨request, run⟩, hreply, hsame⟩ := Option.map_eq_some_iff.1 hresult
  obtain ⟨rfl, houtcome⟩ := Sigma.mk.inj hsame
  refine ⟨run, hreply, ?_⟩
  rw [← hstores visit (List.mem_of_getElem? hvisit)]
  exact eq_of_heq houtcome

/-- **The type of a slot is told by the steps.** If all steps succeed, no request for the type of a
slot fails, and the reply is what the steps record for the first variable of the slot, in whatever
order they record and declare. -/
theorem typeFacts_of_steps {steps : List BuildStep} (hsteps : AllSucceed steps)
    (config : ProviderConfig) {requests : List Request} {k : Nat} {method : MethodHandle}
    {index : Nat} (hrequest : requests[k]? = some (.typeFacts method index)) :
    let store := (Metadata.build steps).store
    let visits := requests.map fun request => (⟨some store, request⟩ : Visit)
    ∃ run, ((ofStore store config).answerAll visits)[k]? = some ⟨.typeFacts method index, run⟩ ∧
      run.outcome = .ok (recordedInfo? steps method index) := by
  intro store visits
  have hstores : ∀ visit ∈ visits, visit.store = some store := by
    intro visit hvisit
    obtain ⟨request, -, rfl⟩ := List.mem_map.1 hvisit
    rfl
  have hvisit : visits[k]? = some ⟨some store, .typeFacts method index⟩ := by
    rw [List.getElem?_map, hrequest, Option.map_some]
  have hfresh : (ofStore store config).cache = ∅ := rfl
  obtain ⟨run, hrun, houtcome⟩ := exists_reply_of_same_store hfresh hstores hvisit
  exact ⟨run, hrun, houtcome.trans (Metadata.typeFacts_outcome_build hsteps method index)⟩

/-- Records about the first variable of slot 0 before and behind its scope. Other ones have no
value, or are about a method with the same row id or about a later variable of the slot. -/
def recordedSteps : List BuildStep :=
  let first := (.first : LocalVariableHandle).token
  let names := some TypeFact.tupleElementNames.kind.guid
  let flags := some TypeFact.dynamicFlags.kind.guid
  [.record ⟨first, flags, []⟩, .record ⟨first, names, [0x61, 0, 0x62, 0]⟩,
    .scope .first 0 9 [⟨.none, 0, "x"⟩, ⟨.none, 1, "y"⟩],
    .record ⟨(.first : MethodHandle).token, flags, [1]⟩, .scope .first 2 4 [⟨.none, 0, "z"⟩],
    .record ⟨⟨0x33, 3, by decide⟩, flags, [1]⟩, .record ⟨first, flags, [2]⟩,
    .record ⟨first, names, [0x63, 0]⟩]

theorem typeFacts_recordedSteps :
    let store := (Metadata.build recordedSteps).store
    let requests : List Request := [.typeFacts .first 0, .localVariables .first, .typeFacts .first 0]
    let visits := requests.map fun request => (⟨some store, request⟩ : Visit)
    AllSucceed recordedSteps ∧ requests[2]? = some (.typeFacts .first 0) ∧
      ∃ run, ((ofStore store ⟨none, true⟩).answerAll visits)[2]? =
          some ⟨.typeFacts .first 0, run⟩ ∧
        run.outcome = .ok (some ⟨some [some "a", some "b"], some (DynamicFlags.decode [2])⟩) := by
  intro store requests visits
  have hsteps : AllSucceed recordedSteps := by decide +kernel
  have hrequest : requests[2]? = some (.typeFacts .first 0) := rfl
  have hinfo : recordedInfo? recordedSteps .first 0 =
      some ⟨some [some "a", some "b"], some (DynamicFlags.decode [2])⟩ := by decide +kernel
  rw [← hinfo]
  exact ⟨hsteps, hrequest, typeFacts_of_steps hsteps ⟨none, true⟩ hrequest⟩

end Provider

end PortablePdb
