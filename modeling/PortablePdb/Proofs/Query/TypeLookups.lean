import PortablePdb.Proofs.Provider.RecordedTypes
import PortablePdb.Proofs.Query.SlotSearch
import PortablePdb.Proofs.Query.Stopping

/-!
# What a query for the type of a slot looks up

The query first searches for the slot. The lookups that the search may make are known beforehand
(`searchRow`), and it ends at the first one that fails or meets a variable of the slot. All parts of
the search go through their row in this way (`GoesThrough`). Only if a variable was met are the
records listed, and then fetched one after the other until both facts are known
(`scanRecords_lookups`).

* `typeFacts_neededOnly`: all lookups of a request about a type, in order.
-/

namespace PortablePdb

namespace Query

/-! ## Searching through a row of lookups -/

/-- The lookups for the variables of a scope. -/
def scopeRow (store : Store) (scope : LocalScopeHandle) : List Lookup :=
  let handles := (store (.localVariables scope)).toOption.getD []
  .localVariables scope :: handles.map .localVariable

/-- The lookups for the scopes of a method and for the variables of all of them. -/
def searchRow (store : Store) (method : MethodHandle) : List Lookup :=
  let scopes := (store (.localScopes method)).toOption.getD []
  .localScopes method :: scopes.flatMap (scopeRow store)

/-- A search ends with a lookup that fails or that meets a variable of the slot. -/
def endsSearch (store : Store) (index : Nat) (lookup : Lookup) : Bool :=
  store.fails lookup || (variableMet? store lookup).any fun (_, row) => row.index = index

/-- The outcome of a search that ends with a lookup. -/
inductive EndsWith (store : Store) (index : Nat) (last : Lookup) :
    Except DebugError (Option (LocalVariableHandle × LocalVariable)) → Prop
  | met {found : LocalVariableHandle × LocalVariable} (hmet : variableMet? store last = some found)
      (hindex : found.2.index = index) : EndsWith store index last (.ok (some found))
  | failed {e : DebugError} (hfailed : store last = .error e) :
      EndsWith store index last (.error e)

/-- How a search goes through a row of lookups: to the end, or up to the first lookup that ends it,
which decides the outcome. -/
inductive GoesThrough (store : Store) (index : Nat) (row : List Lookup)
    (search : Run (Option (LocalVariableHandle × LocalVariable))) : Prop
  | unmet (hopen : ∀ lookup ∈ row, endsSearch store index lookup = false)
      (hlookups : search.lookups = row) (houtcome : search.outcome = .ok none)
  | ended {before after : List Lookup} {last : Lookup} (hrow : row = before ++ last :: after)
      (hopen : ∀ lookup ∈ before, endsSearch store index lookup = false)
      (hlast : EndsWith store index last search.outcome)
      (hlookups : search.lookups = before ++ [last])

variable {store : Store} {index : Nat}

theorem EndsWith.endsSearch {last : Lookup}
    {outcome : Except DebugError (Option (LocalVariableHandle × LocalVariable))}
    (h : EndsWith store index last outcome) : endsSearch store index last = true := by
  cases h with
  | met hmet hindex => simp [Query.endsSearch, hmet, hindex]
  | failed hfailed => rw [Query.endsSearch, Store.fails_of_error hfailed, Bool.true_or]

theorem endsSearch_of_unmet {lookup : Lookup} {answer : lookup.Answer}
    (h : store lookup = .ok answer) (hnone : variableMet? store lookup = none) :
    endsSearch store index lookup = false := by
  simp [endsSearch, Store.fails_of_ok h, hnone]

theorem endsSearch_of_other {handle : LocalVariableHandle} {row : LocalVariable}
    (h : store (.localVariable handle) = .ok row) (hindex : row.index ≠ index) :
    endsSearch store index (.localVariable handle) = false := by
  simp [endsSearch, Store.fails_of_ok h, variableMet?_of_ok h, hindex]

theorem firstMet?_of_open {lookups : List Lookup}
    (h : ∀ lookup ∈ lookups, endsSearch store index lookup = false) :
    firstMet? store index lookups = none := by
  refine List.find?_eq_none.2 ?_
  intro found hfound hindex
  obtain ⟨lookup, hlookup, hmet⟩ := List.mem_filterMap.1 hfound
  have hends : EndsWith store index lookup (.ok (some found)) := .met hmet (of_decide_eq_true hindex)
  exact Bool.false_ne_true ((h lookup hlookup).symm.trans hends.endsSearch)

namespace GoesThrough

variable {row : List Lookup} {search search' : Run (Option (LocalVariableHandle × LocalVariable))}

theorem lookups_eq (h : GoesThrough store index row search) :
    search.lookups = upTo (endsSearch store index) row := by
  cases h with
  | unmet hopen hlookups _ => rw [hlookups, upTo_eq_self hopen]
  | ended hrow hopen hlast hlookups =>
    rw [hlookups, hrow, upTo_append hopen, upTo_cons_of_pos hlast.endsSearch]

/-- A search finds the first variable of the slot that its lookups met. -/
theorem of_ok (h : GoesThrough store index row search)
    {found : Option (LocalVariableHandle × LocalVariable)} (hok : search.outcome = .ok found) :
    firstMet? store index search.lookups = found := by
  cases h with
  | unmet hopen hlookups houtcome =>
    obtain rfl : none = found := Except.ok.inj (houtcome.symm.trans hok)
    rw [hlookups, firstMet?_of_open hopen]
  | @ended before after last hrow hopen hlast hlookups =>
    rw [hok] at hlast
    cases hlast with
    | @met found hmet hindex =>
      have hfirst : firstMet? store index [last] = some found :=
        (firstMet?_cons_of_some hmet index []).trans (if_pos hindex)
      rw [hlookups, firstMet?_append, firstMet?_of_open hopen, hfirst, Option.none_or]

theorem of_error (h : GoesThrough store index row search) {e : DebugError}
    (herror : search.outcome = .error e) : firstMet? store index search.lookups = none := by
  cases h with
  | unmet _ _ houtcome =>
    rw [houtcome] at herror
    cases herror
  | ended hrow hopen hlast hlookups =>
    rw [herror] at hlast
    cases hlast with
    | failed hfailed => rw [hlookups, firstMet?_of_failed hfailed, firstMet?_of_open hopen]

/-- A search that has gone through a row without an end goes on behind it. -/
theorem behind (h : GoesThrough store index row search) {front : List Lookup}
    (hfront : ∀ lookup ∈ front, endsSearch store index lookup = false)
    (hlookups : search'.lookups = front ++ search.lookups)
    (houtcome : search'.outcome = search.outcome) :
    GoesThrough store index (front ++ row) search' := by
  cases h with
  | unmet hopen hrest hnone =>
    exact .unmet (List.forall_mem_append.2 ⟨hfront, hopen⟩) (by rw [hlookups, hrest])
      (houtcome.trans hnone)
  | @ended before after last hrow hopen hlast hrest =>
    have hsplit : front ++ row = (front ++ before) ++ last :: after := by
      rw [hrow, List.append_assoc]
    refine .ended hsplit (List.forall_mem_append.2 ⟨hfront, hopen⟩) ?_ ?_
    · rw [houtcome]
      exact hlast
    · rw [hlookups, hrest, List.append_assoc]

theorem cons (h : GoesThrough store index row search) {lookup : Lookup}
    (hlookup : endsSearch store index lookup = false)
    (hlookups : search'.lookups = lookup :: search.lookups)
    (houtcome : search'.outcome = search.outcome) :
    GoesThrough store index (lookup :: row) search' :=
  h.behind (List.forall_mem_singleton.2 hlookup) hlookups houtcome

/-- What is behind the end of a search does not matter. -/
theorem extend (h : GoesThrough store index row search) (hended : search.outcome ≠ .ok none)
    (more : List Lookup) (hlookups : search'.lookups = search.lookups)
    (houtcome : search'.outcome = search.outcome) :
    GoesThrough store index (row ++ more) search' := by
  cases h with
  | unmet _ _ hnone => exact absurd hnone hended
  | @ended before after last hrow hopen hlast hrest =>
    have hsplit : row ++ more = before ++ last :: (after ++ more) := by
      rw [hrow, List.append_assoc, List.cons_append]
    refine .ended hsplit hopen ?_ (hlookups.trans hrest)
    rw [houtcome]
    exact hlast

theorem of_first {lookup : Lookup} (h : EndsWith store index lookup search.outcome)
    (hlookups : search.lookups = [lookup]) (more : List Lookup) :
    GoesThrough store index (lookup :: more) search :=
  .ended (List.nil_append _).symm (List.forall_mem_nil _) h hlookups

/-- A lookup that meets no variable only ends a search if it fails. -/
theorem ask {lookup : Lookup} (hnone : variableMet? store lookup = none) {more : List Lookup}
    {next : lookup.Answer → Query (Option (LocalVariableHandle × LocalVariable))}
    (h : ∀ answer, store lookup = .ok answer →
      GoesThrough store index more ((next answer).run store)) :
    GoesThrough store index (lookup :: more) ((Query.ask lookup >>= next).run store) := by
  cases hanswer : store lookup with
  | error e =>
    rw [run_ask_bind_error hanswer]
    exact .of_first (.failed hanswer) rfl more
  | ok answer =>
    rw [run_ask_bind_ok hanswer]
    exact (h answer hanswer).cons (endsSearch_of_unmet hanswer hnone) rfl rfl

/-- A search through one row and, if that has no variable of the slot, through another. -/
theorem append {more : List Lookup}
    {first second : Query (Option (LocalVariableHandle × LocalVariable))}
    (h : GoesThrough store index row (first.run store))
    (h' : GoesThrough store index more (second.run store)) :
    GoesThrough store index (row ++ more)
      ((do
        match ← first with
        | some found => pure (some found)
        | none => second).run store) := by
  cases houtcome : (first.run store).outcome with
  | error e =>
    rw [run_bind_error houtcome]
    exact h.extend (by rw [houtcome]; simp) more rfl houtcome.symm
  | ok found =>
    rw [run_bind_ok houtcome]
    cases found with
    | some found =>
      exact h.extend (by rw [houtcome]; simp) more (List.append_nil _) houtcome.symm
    | none =>
      cases h with
      | unmet hopen hlookups _ => exact h'.behind hopen (congrArg (· ++ _) hlookups) rfl
      | ended _ _ hlast _ =>
        rw [houtcome] at hlast
        cases hlast

end GoesThrough

theorem goesThrough_variables (index : Nat) (handles : List LocalVariableHandle) :
    GoesThrough store index (handles.map .localVariable)
      ((firstVariable index handles).run store) := by
  induction handles with
  | nil => exact .unmet (List.forall_mem_nil _) rfl rfl
  | cons handle more ih =>
    rw [firstVariable, List.map_cons]
    cases hrow : store (.localVariable handle) with
    | error e =>
      rw [run_ask_bind_error hrow]
      exact .of_first (.failed hrow) rfl _
    | ok row =>
      rw [run_ask_bind_ok hrow]
      by_cases hindex : row.index = index
      · rw [if_pos hindex]
        exact .of_first (.met (variableMet?_of_ok hrow) hindex) rfl _
      · rw [if_neg hindex]
        exact ih.cons (endsSearch_of_other hrow hindex) rfl rfl

theorem goesThrough_scopes (index : Nat) (scopes : List LocalScopeHandle) :
    GoesThrough store index (scopes.flatMap (scopeRow store))
      ((firstInScopes index scopes).run store) := by
  induction scopes with
  | nil => exact .unmet (List.forall_mem_nil _) rfl rfl
  | cons scope more ih =>
    rw [firstInScopes, List.flatMap_cons, scopeRow, List.cons_append]
    refine .ask rfl fun handles hhandles => ?_
    rw [hhandles]
    exact (goesThrough_variables index handles).append ih

/-- Reporting that nothing was found changes neither the lookups of a search nor its outcome. -/
theorem goesThrough_method (method : MethodHandle) (index : Nat) :
    GoesThrough store index (searchRow store method) ((firstOfSlot method index).run store) := by
  refine .ask rfl fun scopes hscopes => ?_
  have hsearch : GoesThrough store index (scopes.flatMap (scopeRow store))
      ((firstInScopes index scopes).run store) := goesThrough_scopes index scopes
  have hnone := List.forall_mem_nil fun lookup => endsSearch store index lookup = false
  rw [hscopes]
  cases hfound : ((firstInScopes index scopes).run store).outcome with
  | error e =>
    rw [run_bind_error hfound]
    exact hsearch.behind hnone rfl hfound.symm
  | ok found =>
    rw [run_bind_ok hfound]
    cases found with
    | none => exact hsearch.behind hnone (List.append_nil _) hfound.symm
    | some found => exact hsearch.behind hnone (List.append_nil _) hfound.symm

/-! ## Scanning the records -/

/-- A query that asks nothing. -/
def Quiet {α : Type} (query : Query α) : Prop := ∀ store, (query.run store).lookups = []

section

variable {α β : Type}

theorem quiet_pure (a : α) : Quiet (pure a : Query α) := fun _ => rfl

theorem quiet_emit (event : Event) : Quiet (emit event) := fun _ => rfl

theorem Quiet.bind {query : Query α} {next : α → Query β} (h : Quiet query)
    (hnext : ∀ a, Quiet (next a)) : Quiet (query >>= next) := by
  intro store
  cases houtcome : (query.run store).outcome with
  | error e => rw [run_bind_error houtcome, h store]
  | ok a => rw [run_bind_ok houtcome, h store, hnext a store, List.append_nil]

end

theorem quiet_settle (response : ExtraTypeInfo.Response Event) : Quiet (settle response) :=
  fun _ => rfl

theorem quiet_learn (target : LocalVariableHandle) (handle : CustomDebugHandle) (fact : TypeFact)
    (value : Bytes) (info : ExtraTypeInfo) : Quiet (learn target handle fact value info) :=
  (quiet_settle _).bind fun _ => (quiet_emit _).bind fun _ => quiet_pure _

theorem quiet_inspect (target : LocalVariableHandle) (handle : CustomDebugHandle)
    (record : CustomDebug.Record) (info : ExtraTypeInfo) :
    Quiet (inspect target handle record info) := by
  unfold inspect
  split
  · split
    · exact (quiet_emit _).bind fun _ => quiet_pure _
    · exact (quiet_emit _).bind fun _ => quiet_pure _
    · split
      · exact quiet_learn target handle _ record.value info
      · exact (quiet_emit _).bind fun _ => quiet_pure _
  · exact quiet_pure _

/-- The lookups of some records. -/
def recordRow (handles : List CustomDebugHandle) : List Lookup :=
  handles.map .customDebugRecord

theorem recordRow_append (first second : List CustomDebugHandle) :
    recordRow (first ++ second) = recordRow first ++ recordRow second := List.map_append

/-- A scan that has fetched some records, which do not settle both facts, fetches those that are
missing up to the record that does. -/
theorem scanRecords_lookups {target : LocalVariableHandle} (before handles : List CustomDebugHandle)
    (hbefore : ∀ lookup ∈ recordRow before, store.fails lookup = false)
    (hopen : ¬ Settles store target.token before) :
    recordRow before ++
        ((scanRecords target handles (facts store target.token before)).run store).lookups =
      upTo store.fails (recordRow (settling store target.token (before ++ handles))) := by
  induction handles generalizing before with
  | nil =>
    rw [List.append_nil, settling_eq_self hopen, upTo_eq_self hbefore]
    exact List.append_nil _
  | cons handle more ih =>
    rw [scanRecords]
    cases hrecord : store (.customDebugRecord handle) with
    | error e =>
      -- The record that fails belongs to the row, since those before it leave a fact open.
      obtain ⟨rest, hrest⟩ := exists_settling_eq hopen handle more
      rw [run_ask_bind_error hrecord, hrest, recordRow_append, upTo_append hbefore]
      exact congrArg _ (upTo_cons_of_pos (Store.fails_of_error hrecord) _).symm
    | ok record =>
      have hnext : ∀ lookup ∈ recordRow (before ++ [handle]), store.fails lookup = false := by
        rw [recordRow_append]
        refine List.forall_mem_append.2 ⟨hbefore, ?_⟩
        exact List.forall_mem_singleton.2 (Store.fails_of_ok hrecord)
      rw [run_ask_bind_ok hrecord, run_bind_ok (inspect_facts target handle before hrecord),
        quiet_inspect, List.nil_append]
      by_cases hsettles : Settles store target.token (before ++ [handle])
      · rw [if_pos (isComplete_facts_iff.2 hsettles), settling_of_settles hopen hsettles,
          upTo_eq_self hnext, recordRow_append]
        rfl
      · have hmore := ih (before ++ [handle]) hnext hsettles
        rw [List.append_assoc, List.singleton_append] at hmore
        rw [if_neg (mt isComplete_facts_iff.1 hsettles), ← hmore, recordRow_append,
          List.append_assoc]
        rfl

/-! ## The lookups of a query -/

/-- The lookups for the type of a slot: first those of a search for the slot and, if it met a
variable of the slot, the list of all records and those that are needed to settle both facts. -/
def typeRow (store : Store) (method : MethodHandle) (index : Nat) : List Lookup :=
  let search := upTo (endsSearch store index) (searchRow store method)
  match firstMet? store index search with
  | none => search
  | some (target, _) =>
    let handles := (store .customDebugInformation).toOption.getD []
    search ++ .customDebugInformation ::
      upTo store.fails (recordRow (settling store target.token handles))

theorem collect_lookups (target : LocalVariableHandle) :
    ((collect target).run store).lookups =
      .customDebugInformation :: upTo store.fails (recordRow (settling store target.token
        ((store .customDebugInformation).toOption.getD []))) := by
  rw [collect]
  cases hlist : store .customDebugInformation with
  | error e =>
    rw [run_ask_bind_error hlist]
    rfl
  | ok handles =>
    have hscan : ((scanRecords target handles .empty).run store).lookups =
        upTo store.fails (recordRow (settling store target.token handles)) :=
      scanRecords_lookups [] handles (List.forall_mem_nil _) (not_settles_nil store target.token)
    rw [run_ask_bind_ok hlist, run_bind_pure, hscan]
    rfl

theorem typeFacts_lookups (store : Store) (method : MethodHandle) (index : Nat) :
    ((typeFacts method index).run store).lookups = typeRow store method index := by
  have hsearch : GoesThrough store index (searchRow store method)
      ((firstOfSlot method index).run store) := goesThrough_method method index
  have hfind : (findVariable method index).run store = _ :=
    run_bind_pure (firstOfSlot method index) _ store
  rw [typeRow, ← hsearch.lookups_eq, typeFacts]
  cases hfound : ((firstOfSlot method index).run store).outcome with
  | error e =>
    have hfailed : ((findVariable method index).run store).outcome = .error e := by
      rw [hfind, hfound]
      rfl
    rw [run_bind_error hfailed, hsearch.of_error hfound, hfind]
  | ok found =>
    have hok : ((findVariable method index).run store).outcome =
        .ok (found.map fun (handle, _) => handle) := by
      rw [hfind, hfound]
      rfl
    rw [run_bind_ok hok, hsearch.of_ok hfound, hfind]
    cases found with
    | none => exact List.append_nil _
    | some found => exact congrArg _ (collect_lookups found.1)

/-! ## No more than needed -/

/-- The record that a lookup is for, if it is for one. -/
def record? : Lookup → Option CustomDebugHandle
  | .customDebugRecord handle => some handle
  | _ => none

theorem filterMap_recordRow (handles : List CustomDebugHandle) :
    (recordRow handles).filterMap record? = handles := by
  rw [recordRow, List.filterMap_map]
  exact List.filterMap_some

/-- A search for a slot does not ask for records. -/
theorem not_record_of_mem_searchRow {method : MethodHandle} {lookup : Lookup}
    (h : lookup ∈ searchRow store method) :
    lookup ≠ .customDebugInformation ∧ record? lookup = none := by
  rcases List.mem_cons.1 h with rfl | hscopes
  · exact ⟨by simp, rfl⟩
  · obtain ⟨scope, -, hscope⟩ := List.mem_flatMap.1 hscopes
    rcases List.mem_cons.1 hscope with rfl | hhandles
    · exact ⟨by simp, rfl⟩
    · obtain ⟨handle, -, rfl⟩ := List.mem_map.1 hhandles
      exact ⟨by simp, rfl⟩

/-- Records that settle both facts need no others behind them. -/
theorem settling_prefix_of_settles {target : Token} {before : List CustomDebugHandle}
    (h : Settles store target before) (more : List CustomDebugHandle) :
    settling store target (before ++ more) <+: before := by
  have hsome : (before.inits.find? fun start => decide (Settles store target start)).isSome := by
    rw [List.find?_isSome]
    exact ⟨before, (List.mem_inits _ _).2 List.prefix_rfl, decide_eq_true h⟩
  obtain ⟨start, hstart⟩ := Option.isSome_iff_exists.1 hsome
  rw [settling, List.inits_append, List.find?_append, hstart, Option.some_or, Option.getD_some]
  exact (List.mem_inits _ _).1 (List.mem_of_find?_eq_some hstart)

theorem not_settles_of_settling_eq {target : Token} {handles before after : List CustomDebugHandle}
    {handle : CustomDebugHandle} (h : settling store target handles = before ++ handle :: after) :
    ¬ Settles store target before := by
  intro hsettles
  obtain ⟨rest, hrest⟩ := settling_prefix store target handles
  rw [h, List.append_assoc] at hrest
  have hstart := settling_prefix_of_settles hsettles (handle :: after ++ rest)
  rw [hrest, h] at hstart
  have hlength := hstart.length_le
  rw [List.length_append, List.length_cons] at hlength
  omega

/-- The lookups that a query for the type of a slot needs, and no others. -/
structure NeededOnly (store : Store) (method : MethodHandle) (index : Nat)
    (lookups : List Lookup) : Prop where
  lookups_eq : lookups = typeRow store method index
  /-- Nothing is asked about records if no variable of the method has the slot. -/
  unmet : (∀ found ∈ variablesMet store (searchRow store method), found.2.index ≠ index) →
    .customDebugInformation ∉ lookups ∧ ∀ handle, .customDebugRecord handle ∉ lookups
  /-- A record is only fetched for a variable of the slot that was met, and only while the records
  fetched before do not settle both facts about that variable. -/
  unsettled : ∀ before handle after, lookups = before ++ .customDebugRecord handle :: after →
    ∃ target row, firstMet? store index before = some (target, row) ∧
      ¬ Settles store target.token (before.filterMap record?)

theorem typeRow_of_unmet {method : MethodHandle}
    (h : ∀ found ∈ variablesMet store (searchRow store method), found.2.index ≠ index) :
    typeRow store method index = upTo (endsSearch store index) (searchRow store method) := by
  have hnone : firstMet? store index (upTo (endsSearch store index) (searchRow store method)) =
      none := by
    refine List.find?_eq_none.2 ?_
    intro found hfound hindex
    have hstart := upTo_prefix (endsSearch store index) (searchRow store method)
    have hall := (hstart.sublist.filterMap (variableMet? store)).subset hfound
    exact h found hall (of_decide_eq_true hindex)
  rw [typeRow, hnone]

/-- Where a list is split at an element, which is not in its first part, that part stays whole. -/
theorem exists_behind_of_split {α : Type} {front back before after : List α} {middle x : α}
    (h : front ++ middle :: back = before ++ x :: after) (hfront : x ∉ front) (hne : middle ≠ x) :
    ∃ between, before = front ++ middle :: between ∧ back = between ++ x :: after := by
  induction front generalizing before with
  | nil =>
    cases before with
    | nil => exact absurd (List.cons.inj h).1 hne
    | cons first between =>
      obtain ⟨rfl, hback⟩ := List.cons.inj h
      exact ⟨between, rfl, hback⟩
  | cons first front ih =>
    cases before with
    | nil =>
      obtain ⟨rfl, -⟩ := List.cons.inj h
      exact absurd List.mem_cons_self hfront
    | cons other before =>
      obtain ⟨rfl, hmore⟩ := List.cons.inj h
      obtain ⟨between, rfl, hback⟩ := ih hmore fun hmem => hfront (List.mem_cons_of_mem _ hmem)
      exact ⟨between, rfl, hback⟩

theorem not_settles_of_fetched {target : Token} {handles : List CustomDebugHandle}
    {before after : List Lookup} {handle : CustomDebugHandle}
    (h : upTo store.fails (recordRow (settling store target handles)) =
      before ++ .customDebugRecord handle :: after) :
    ¬ Settles store target (before.filterMap record?) := by
  obtain ⟨rest, hrest⟩ := upTo_prefix store.fails (recordRow (settling store target handles))
  have hsettling := filterMap_recordRow (settling store target handles)
  rw [← hrest, h, List.append_assoc, List.filterMap_append] at hsettling
  exact not_settles_of_settling_eq hsettling.symm

/-- What comes before the lookup of a record: the search, which met a variable, the list of all
records, and the lookups of records that do not settle both facts. -/
theorem unsettled_of_typeRow {method : MethodHandle} {before after : List Lookup}
    {handle : CustomDebugHandle}
    (h : typeRow store method index = before ++ .customDebugRecord handle :: after) :
    ∃ target row, firstMet? store index before = some (target, row) ∧
      ¬ Settles store target.token (before.filterMap record?) := by
  have hstart := upTo_prefix (endsSearch store index) (searchRow store method)
  unfold typeRow at h
  generalize upTo (endsSearch store index) (searchRow store method) = search at h hstart
  have hsearch : ∀ lookup ∈ search, record? lookup = none := fun lookup hlookup =>
    (not_record_of_mem_searchRow (hstart.subset hlookup)).2
  have hnot : .customDebugRecord handle ∉ search := by
    intro hmem
    cases hsearch _ hmem
  cases hmet : firstMet? store index search with
  | none =>
    simp only [hmet] at h
    exact absurd (by simp [h]) hnot
  | some found =>
    simp only [hmet] at h
    -- The search has no lookup of a record, so all of it comes before this one.
    obtain ⟨fetched, rfl, hfetched⟩ := exists_behind_of_split h hnot (by simp)
    have hrecords : (search ++ .customDebugInformation :: fetched).filterMap record? =
        fetched.filterMap record? := by
      rw [List.filterMap_append, List.filterMap_eq_nil_iff.2 hsearch, List.nil_append,
        List.filterMap_cons_none rfl]
    refine ⟨found.1, found.2, ?_, ?_⟩
    · rw [firstMet?_append, hmet, Option.some_or]
    · rw [hrecords]
      exact not_settles_of_fetched hfetched

theorem neededOnly_typeFacts (store : Store) (method : MethodHandle) (index : Nat) :
    NeededOnly store method index ((typeFacts method index).run store).lookups := by
  have hlookups := typeFacts_lookups store method index
  constructor
  case lookups_eq => exact hlookups
  case unmet =>
    intro hunmet
    rw [hlookups, typeRow_of_unmet hunmet]
    have hstart := upTo_prefix (endsSearch store index) (searchRow store method)
    constructor
    · intro hlookup
      exact (not_record_of_mem_searchRow (hstart.subset hlookup)).1 rfl
    · intro handle hlookup
      cases (not_record_of_mem_searchRow (hstart.subset hlookup)).2
  case unsettled =>
    intro before handle after hsplit
    exact unsettled_of_typeRow (hlookups.symm.trans hsplit)

end Query

/-! ## Answers about the type of a slot -/

namespace Provider

open Query

theorem answer_of_unkept {provider : Provider} {store : Store}
    (hstore : provider.store = some store) {method : MethodHandle} {index : Nat}
    (h : provider.config.keepsTypeInfo = true → provider.cache[(⟨method, index⟩ : Slot)]? = none) :
    (provider.answer (.typeFacts method index)).1 = (typeFacts method index).run store := by
  have hrun : (Request.typeFacts method index).runOn provider.store =
      (typeFacts method index).run store := by
    rw [hstore]
    rfl
  rw [answer]
  split
  · rename_i hkeeps
    cases houtcome : ((Request.typeFacts method index).runOn provider.store).outcome with
    | ok info => rw [answerCached_of_ok (h hkeeps) houtcome, hrun]
    | error e => rw [answerCached_of_error (h hkeeps) houtcome, hrun]
  · exact hrun

/-- **Nothing is looked up that is not needed.** A provider that keeps nothing about the type of a
slot makes the lookups of a search for the slot and, if that meets a variable, lists the records and
fetches them until both facts are known or one cannot be fetched. -/
theorem typeFacts_neededOnly {provider : Provider} {store : Store}
    (hstore : provider.store = some store) {method : MethodHandle} {index : Nat}
    (hunkept : provider.config.keepsTypeInfo = true →
      provider.cache[(⟨method, index⟩ : Slot)]? = none) :
    NeededOnly store method index (provider.answer (.typeFacts method index)).1.lookups := by
  rw [answer_of_unkept hstore hunkept]
  exact neededOnly_typeFacts store method index

/-- The fifth of six records settles both facts. -/
theorem typeFacts_neededOnly_recordedSteps :
    let store := (Metadata.build recordedSteps).store
    let provider : Provider := .ofStore store ⟨none, true⟩
    let lookups : List Lookup := [.localScopes .first, .localVariables .first,
      .localVariable .first, .customDebugInformation, .customDebugRecord .first,
      .customDebugRecord ⟨2, by decide⟩, .customDebugRecord ⟨3, by decide⟩,
      .customDebugRecord ⟨4, by decide⟩, .customDebugRecord ⟨5, by decide⟩]
    provider.store = some store ∧ provider.cache[(⟨.first, 0⟩ : Slot)]? = none ∧
      (provider.answer (.typeFacts .first 0)).1.lookups = lookups ∧
      NeededOnly store .first 0 lookups := by
  intro store provider lookups
  have hcache : provider.cache[(⟨.first, 0⟩ : Slot)]? = none := rfl
  have hlookups : (provider.answer (.typeFacts .first 0)).1.lookups = lookups := by
    have hrow : typeRow store .first 0 = lookups := by decide +kernel
    rw [answer_of_unkept rfl fun _ => hcache, typeFacts_lookups, hrow]
  refine ⟨rfl, hcache, hlookups, ?_⟩
  rw [← hlookups]
  exact typeFacts_neededOnly rfl fun _ => hcache

end Provider

end PortablePdb
