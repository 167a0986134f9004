import Mathlib.Data.List.Infix
import PortablePdb.Provider

/-!
# The first variable of a slot

The variables of a method can be listed, or searched for the first one of a slot. A search makes
the lookups of the list up to that variable and no others, so it can succeed where the list fails.
Both are told here by the lookups of the list alone: the variables that these lookups met
(`variablesMet`), of which the search gives the first one of the slot. If there is none, the search
makes all lookups and ends as the list does (`Searches`).

A query ends at the first lookup that fails (`Run.Prompt`), so a variable that was met was met
before the failure.

* `slotAgrees_of_store`: what a provider answers about a slot, beside the list of all variables.
-/

namespace PortablePdb

/-! ## The end of a query -/

/-- A store answers some lookups if none of them fails. -/
def Store.Answers (store : Store) (lookups : List Lookup) : Prop :=
  ∀ lookup ∈ lookups, ∃ answer, store lookup = .ok answer

theorem Store.answers_nil (store : Store) : store.Answers [] := by
  intro lookup hlookup
  cases hlookup

theorem Store.Answers.append {store : Store} {first second : List Lookup}
    (h : store.Answers first) (h' : store.Answers second) : store.Answers (first ++ second) := by
  intro lookup hlookup
  rcases List.mem_append.1 hlookup with hfirst | hsecond
  · exact h lookup hfirst
  · exact h' lookup hsecond

/-- A run is prompt if it ends at the first lookup that fails, with the error of that lookup. -/
inductive Run.Prompt {α : Type} (store : Store) (run : Run α) : Prop
  | ok {a : α} (houtcome : run.outcome = .ok a) (hanswers : store.Answers run.lookups)
  | failed {e : DebugError} {before : List Lookup} {last : Lookup}
      (houtcome : run.outcome = .error e) (hlookups : run.lookups = before ++ [last])
      (hanswers : store.Answers before) (hlast : store last = .error e)

theorem Run.Prompt.bind {α β : Type} {store : Store} {run : Run α} {next : α → Run β}
    (h : run.Prompt store) (hnext : ∀ a, (next a).Prompt store) : (run.bind next).Prompt store := by
  cases h with
  | @failed e before last houtcome hlookups hanswers hlast =>
    have hbind : run.bind next = ⟨.error e, run.lookups, run.events⟩ := by rw [Run.bind, houtcome]
    rw [hbind]
    exact .failed rfl hlookups hanswers hlast
  | @ok a houtcome hanswers =>
    have hbind : run.bind next =
        ⟨(next a).outcome, run.lookups ++ (next a).lookups, run.events ++ (next a).events⟩ := by
      rw [Run.bind, houtcome]
    rw [hbind]
    cases hnext a with
    | ok hrest hmore => exact .ok hrest (hanswers.append hmore)
    | @failed e before last hrest hlookups hmore hlast =>
      have hall : run.lookups ++ (next a).lookups = (run.lookups ++ before) ++ [last] := by
        rw [hlookups, List.append_assoc]
      exact .failed hrest hall (hanswers.append hmore) hlast

namespace Query

variable {α β : Type} {store : Store}

theorem prompt_pure (a : α) : ((pure a : Query α).run store).Prompt store :=
  .ok rfl store.answers_nil

theorem prompt_emit (event : Event) : ((emit event).run store).Prompt store :=
  .ok rfl store.answers_nil

theorem prompt_ask (lookup : Lookup) : ((ask lookup).run store).Prompt store := by
  cases hanswer : store lookup with
  | ok answer =>
    refine .ok hanswer ?_
    intro asked hasked
    cases List.mem_singleton.1 hasked
    exact ⟨answer, hanswer⟩
  | error e => exact .failed hanswer (List.nil_append _).symm store.answers_nil hanswer

theorem prompt_bind {query : Query α} {next : α → Query β} (h : (query.run store).Prompt store)
    (hnext : ∀ a, ((next a).run store).Prompt store) : ((query >>= next).run store).Prompt store :=
  h.bind hnext

theorem prompt_variableRows (handles : List LocalVariableHandle) :
    ((variableRows handles).run store).Prompt store := by
  induction handles with
  | nil => exact prompt_pure []
  | cons handle more ih =>
    exact prompt_bind (prompt_ask _) fun row => prompt_bind ih fun rest => prompt_pure _

theorem prompt_scopeRows (scopes : List LocalScopeHandle) :
    ((scopeRows scopes).run store).Prompt store := by
  induction scopes with
  | nil => exact prompt_pure []
  | cons scope more ih =>
    refine prompt_bind (prompt_ask _) fun handles => ?_
    exact prompt_bind (prompt_variableRows handles) fun rows =>
      prompt_bind ih fun rest => prompt_pure _

theorem prompt_firstVariable (index : Nat) (handles : List LocalVariableHandle) :
    ((firstVariable index handles).run store).Prompt store := by
  induction handles with
  | nil => exact prompt_pure none
  | cons handle more ih =>
    refine prompt_bind (prompt_ask _) fun row => ?_
    split
    · exact prompt_pure _
    · exact ih

theorem prompt_firstInScopes (index : Nat) (scopes : List LocalScopeHandle) :
    ((firstInScopes index scopes).run store).Prompt store := by
  induction scopes with
  | nil => exact prompt_pure none
  | cons scope more ih =>
    refine prompt_bind (prompt_ask _) fun handles => ?_
    refine prompt_bind (prompt_firstVariable index handles) fun found => ?_
    cases found with
    | some found => exact prompt_pure _
    | none => exact ih

/-! ## What a search finds -/

/-- The variable that a lookup met, with its row, if it is a lookup for a variable. -/
def variableMet? (store : Store) : Lookup → Option (LocalVariableHandle × LocalVariable)
  | .localVariable handle => (store (.localVariable handle)).toOption.map fun row => (handle, row)
  | _ => none

/-- The variables that some lookups met, in the order of the lookups. -/
def variablesMet (store : Store) (lookups : List Lookup) :
    List (LocalVariableHandle × LocalVariable) :=
  lookups.filterMap (variableMet? store)

/-- The first variable of a slot that some lookups met. -/
def firstMet? (store : Store) (index : Nat) (lookups : List Lookup) :
    Option (LocalVariableHandle × LocalVariable) :=
  (variablesMet store lookups).find? fun (_, row) => row.index = index

/-- How a search for the first variable of a slot goes, beside a list of all variables: it ends with
the first one that the list met. If the list met none, the search fails if the list does. -/
inductive Searches (store : Store) (index : Nat)
    (list : Run (List (LocalVariableHandle × LocalVariable)))
    (search : Run (Option (LocalVariableHandle × LocalVariable))) : Prop
  | met {found : LocalVariableHandle × LocalVariable}
      (hmet : firstMet? store index list.lookups = some found)
      (houtcome : search.outcome = .ok (some found)) (hlookups : search.lookups <+: list.lookups)
  | unmet (hmet : firstMet? store index list.lookups = none)
      (houtcome : search.outcome = list.outcome.map fun _ => none)
      (hlookups : search.lookups = list.lookups)

theorem variablesMet_append (store : Store) (first second : List Lookup) :
    variablesMet store (first ++ second) = variablesMet store first ++ variablesMet store second :=
  List.filterMap_append

theorem firstMet?_append (store : Store) (index : Nat) (first second : List Lookup) :
    firstMet? store index (first ++ second) =
      (firstMet? store index first).or (firstMet? store index second) := by
  rw [firstMet?, variablesMet_append, List.find?_append]
  rfl

theorem variableMet?_of_ok {handle : LocalVariableHandle} {row : LocalVariable}
    (h : store (.localVariable handle) = .ok row) :
    variableMet? store (.localVariable handle) = some (handle, row) := by
  simp [variableMet?, h, Except.toOption]

theorem variableMet?_of_error {handle : LocalVariableHandle} {e : DebugError}
    (h : store (.localVariable handle) = .error e) :
    variableMet? store (.localVariable handle) = none := by
  simp [variableMet?, h, Except.toOption]

theorem firstMet?_cons_of_none {lookup : Lookup} (h : variableMet? store lookup = none)
    (index : Nat) (lookups : List Lookup) :
    firstMet? store index (lookup :: lookups) = firstMet? store index lookups := by
  rw [firstMet?, variablesMet, List.filterMap_cons_none h]
  rfl

theorem firstMet?_cons_of_some {lookup : Lookup}
    {found : LocalVariableHandle × LocalVariable} (h : variableMet? store lookup = some found)
    (index : Nat) (lookups : List Lookup) :
    firstMet? store index (lookup :: lookups) =
      if found.2.index = index then some found else firstMet? store index lookups := by
  rw [firstMet?, variablesMet, List.filterMap_cons_some h, List.find?_cons]
  by_cases hindex : found.2.index = index
  · simp [hindex]
  · simp [hindex, firstMet?, variablesMet]

theorem map_map_const {γ : Type} (outcome : Except DebugError α) (f : α → β) (c : γ) :
    (outcome.map f).map (fun _ => c) = outcome.map fun _ => c := by
  cases outcome with
  | error e => rfl
  | ok a => rfl

/-- A search behind lookups that met no variable of the slot is as if without them. -/
theorem Searches.behind {index : Nat}
    {list list' : Run (List (LocalVariableHandle × LocalVariable))}
    {search search' : Run (Option (LocalVariableHandle × LocalVariable))}
    (h : Searches store index list search) {front : List Lookup}
    (hfront : firstMet? store index front = none) (hlist : list'.lookups = front ++ list.lookups)
    (hsearch : search'.lookups = front ++ search.lookups)
    (hrows : (list'.outcome.map fun _ => none) =
      list.outcome.map fun _ => (none : Option (LocalVariableHandle × LocalVariable)))
    (hsame : search'.outcome = search.outcome) : Searches store index list' search' := by
  have hmore : firstMet? store index list'.lookups = firstMet? store index list.lookups := by
    rw [hlist, firstMet?_append, hfront, Option.none_or]
  cases h with
  | met hmet houtcome hlookups =>
    refine .met (hmore.trans hmet) (hsame.trans houtcome) ?_
    rw [hlist, hsearch]
    exact (List.prefix_append_right_inj front).2 hlookups
  | unmet hmet houtcome hlookups =>
    refine .unmet (hmore.trans hmet) ?_ ?_
    · rw [hsame, houtcome, hrows]
    · rw [hlist, hsearch, hlookups]

/-- A lookup that is not for a variable meets none. -/
theorem Searches.ask {lookup : Lookup} (hnone : variableMet? store lookup = none)
    {list : lookup.Answer → Query (List (LocalVariableHandle × LocalVariable))}
    {search : lookup.Answer → Query (Option (LocalVariableHandle × LocalVariable))} {index : Nat}
    (h : ∀ answer, Searches store index ((list answer).run store) ((search answer).run store)) :
    Searches store index ((Query.ask lookup >>= list).run store)
      ((Query.ask lookup >>= search).run store) := by
  have hfront := firstMet?_cons_of_none hnone index []
  cases hanswer : store lookup with
  | error e =>
    rw [run_ask_bind_error hanswer, run_ask_bind_error hanswer]
    exact .unmet hfront rfl rfl
  | ok answer =>
    rw [run_ask_bind_ok hanswer, run_ask_bind_ok hanswer]
    exact (h answer).behind hfront rfl rfl rfl rfl

/-- A search through one part of a list and, if that has no such variable, through the rest. -/
theorem Searches.append {index : Nat}
    {first second : Query (List (LocalVariableHandle × LocalVariable))}
    {search other : Query (Option (LocalVariableHandle × LocalVariable))}
    (h : Searches store index (first.run store) (search.run store))
    (h' : Searches store index (second.run store) (other.run store)) :
    Searches store index
      ((do
        let rows ← first
        let rest ← second
        pure (rows ++ rest)).run store)
      ((do
        match ← search with
        | some found => pure (some found)
        | none => other).run store) := by
  cases houtcome : (first.run store).outcome with
  | error e =>
    rw [run_bind_error houtcome]
    cases h with
    | met hmet hfound hlookups =>
      rw [run_bind_ok hfound]
      refine .met hmet rfl ?_
      simpa using hlookups
    | unmet hmet hfailed hlookups =>
      rw [houtcome] at hfailed
      rw [run_bind_error hfailed]
      exact .unmet hmet rfl hlookups
  | ok rows =>
    rw [run_bind_ok houtcome, run_bind_pure]
    cases h with
    | met hmet hfound hlookups =>
      rw [run_bind_ok hfound]
      refine .met (by rw [firstMet?_append, hmet, Option.some_or]) rfl ?_
      simpa using hlookups.trans (List.prefix_append _ _)
    | unmet hmet hnone hlookups =>
      rw [houtcome] at hnone
      rw [run_bind_ok hnone]
      exact h'.behind hmet rfl (congrArg (· ++ _) hlookups) (map_map_const _ _ _) rfl

theorem searches_variables (index : Nat) (handles : List LocalVariableHandle) :
    Searches store index ((variableRows handles).run store)
      ((firstVariable index handles).run store) := by
  induction handles with
  | nil => exact .unmet rfl rfl rfl
  | cons handle more ih =>
    rw [variableRows, firstVariable]
    cases hrow : store (.localVariable handle) with
    | error e =>
      rw [run_ask_bind_error hrow, run_ask_bind_error hrow]
      exact .unmet (firstMet?_cons_of_none (variableMet?_of_error hrow) index []) rfl rfl
    | ok row =>
      have hmet := firstMet?_cons_of_some (variableMet?_of_ok hrow) index
      rw [run_ask_bind_ok hrow, run_ask_bind_ok hrow, run_bind_pure]
      by_cases hindex : row.index = index
      · rw [if_pos hindex]
        refine .met ((hmet _).trans (if_pos hindex)) rfl ?_
        exact List.prefix_append _ _
      · rw [if_neg hindex]
        exact ih.behind ((hmet []).trans (if_neg hindex)) rfl rfl (map_map_const _ _ _) rfl

theorem searches_scopes (index : Nat) (scopes : List LocalScopeHandle) :
    Searches store index ((scopeRows scopes).run store)
      ((firstInScopes index scopes).run store) := by
  induction scopes with
  | nil => exact .unmet rfl rfl rfl
  | cons scope more ih =>
    exact .ask rfl fun handles => (searches_variables index handles).append ih

/-! ## What a list holds -/

theorem variablesMet_variableRows {handles : List LocalVariableHandle}
    {rows : List (LocalVariableHandle × LocalVariable)}
    (h : ((variableRows handles).run store).outcome = .ok rows) :
    variablesMet store ((variableRows handles).run store).lookups = rows := by
  induction handles generalizing rows with
  | nil =>
    cases h
    rfl
  | cons handle more ih =>
    rw [variableRows] at h ⊢
    rw [outcome_bind] at h
    obtain ⟨row, hrow, h⟩ := bind_eq_ok_iff.1 h
    rw [run_bind_pure] at h
    obtain ⟨rest, hrest, rfl⟩ := map_eq_ok_iff.1 h
    rw [run_bind_ok hrow, run_bind_pure]
    refine (List.filterMap_cons_some (variableMet?_of_ok hrow)).trans ?_
    exact congrArg _ (ih hrest)

theorem variablesMet_scopeRows {scopes : List LocalScopeHandle}
    {rows : List (LocalVariableHandle × LocalVariable)}
    (h : ((scopeRows scopes).run store).outcome = .ok rows) :
    variablesMet store ((scopeRows scopes).run store).lookups = rows := by
  induction scopes generalizing rows with
  | nil =>
    cases h
    rfl
  | cons scope more ih =>
    rw [scopeRows] at h ⊢
    rw [outcome_bind] at h
    obtain ⟨handles, hhandles, h⟩ := bind_eq_ok_iff.1 h
    rw [outcome_bind] at h
    obtain ⟨here, hhere, h⟩ := bind_eq_ok_iff.1 h
    rw [run_bind_pure] at h
    obtain ⟨rest, hrest, rfl⟩ := map_eq_ok_iff.1 h
    rw [run_bind_ok hhandles, run_bind_ok hhere, run_bind_pure]
    calc variablesMet store ([.localVariables scope] ++
          (((variableRows handles).run store).lookups ++ ((scopeRows more).run store).lookups))
      _ = variablesMet store ((variableRows handles).run store).lookups ++
          variablesMet store ((scopeRows more).run store).lookups :=
        variablesMet_append store ((variableRows handles).run store).lookups _
      _ = here ++ rest := by rw [variablesMet_variableRows hhere, ih hrest]

theorem variablesMet_walk {method : MethodHandle}
    {rows : List (LocalVariableHandle × LocalVariable)}
    (h : ((walk method).run store).outcome = .ok rows) :
    variablesMet store ((walk method).run store).lookups = rows := by
  rw [walk, outcome_bind] at h
  obtain ⟨scopes, hscopes, h⟩ := bind_eq_ok_iff.1 h
  rw [walk, run_bind_ok hscopes]
  refine (List.filterMap_cons_none rfl).trans ?_
  exact variablesMet_scopeRows h

/-! ## Searches for a slot -/

/-- Reporting that nothing was found changes neither the outcome of a search nor its lookups. -/
theorem searches_firstOfSlot (method : MethodHandle) (index : Nat) :
    Searches store index ((walk method).run store) ((firstOfSlot method index).run store) := by
  refine .ask rfl fun scopes => ?_
  have hscopes : Searches store index ((scopeRows scopes).run store)
      ((firstInScopes index scopes).run store) := searches_scopes index scopes
  have hnone : firstMet? store index [] = none := rfl
  cases hfound : ((firstInScopes index scopes).run store).outcome with
  | error e =>
    rw [run_bind_error hfound]
    exact hscopes.behind hnone rfl rfl rfl hfound.symm
  | ok found =>
    rw [run_bind_ok hfound]
    cases found with
    | none => exact hscopes.behind hnone rfl (List.append_nil _) rfl hfound.symm
    | some found => exact hscopes.behind hnone rfl (List.append_nil _) rfl hfound.symm

theorem prompt_walk (method : MethodHandle) : ((walk method).run store).Prompt store :=
  prompt_bind (prompt_ask _) prompt_scopeRows

theorem prompt_firstOfSlot (method : MethodHandle) (index : Nat) :
    ((firstOfSlot method index).run store).Prompt store := by
  refine prompt_bind (prompt_ask _) fun scopes => ?_
  refine prompt_bind (prompt_firstInScopes index scopes) fun found => ?_
  cases found with
  | none => exact prompt_bind (prompt_emit _) fun _ => prompt_pure none
  | some found => exact prompt_pure (some found)

theorem row_of_firstMet? {index : Nat} {lookups : List Lookup} {handle : LocalVariableHandle}
    {row : LocalVariable} (h : firstMet? store index lookups = some (handle, row)) :
    store (.localVariable handle) = .ok row ∧ row.index = index := by
  rw [firstMet?] at h
  refine ⟨?_, by simpa using List.find?_some h⟩
  obtain ⟨lookup, -, hmet⟩ := List.mem_filterMap.1 (List.mem_of_find?_eq_some h)
  unfold variableMet? at hmet
  split at hmet
  · rename_i met
    cases hrow : store (.localVariable met) with
    | error e =>
      rw [hrow] at hmet
      cases hmet
    | ok found =>
      rw [hrow] at hmet
      cases hmet
      exact hrow
  · cases hmet

theorem firstMet?_of_failed {last : Lookup} {e : DebugError} (h : store last = .error e)
    (index : Nat) (before : List Lookup) :
    firstMet? store index (before ++ [last]) = firstMet? store index before := by
  have hnone : variableMet? store last = none := by
    cases last with
    | localVariable handle => exact variableMet?_of_error h
    | _ => rfl
  have hlast : firstMet? store index [last] = none := firstMet?_cons_of_none hnone index []
  rw [firstMet?_append, hlast, Option.or_none]

theorem prefix_of_failed {lookups before : List Lookup} {last : Lookup} {e : DebugError}
    (h : lookups <+: before ++ [last]) (hlookups : store.Answers lookups)
    (hlast : store last = .error e) : lookups <+: before := by
  rcases List.prefix_concat_iff.1 h with hall | hbefore
  · obtain ⟨answer, hanswer⟩ := hlookups last (by rw [hall]; simp)
    rw [hlast] at hanswer
    cases hanswer
  · exact hbefore

namespace Searches

variable {index : Nat} {list : Run (List (LocalVariableHandle × LocalVariable))}
  {search : Run (Option (LocalVariableHandle × LocalVariable))}

theorem of_listed (h : Searches store index list search)
    {rows : List (LocalVariableHandle × LocalVariable)} (hlist : list.outcome = .ok rows) :
    search.outcome = .ok (firstMet? store index list.lookups) := by
  cases h with
  | met hmet houtcome _ => rw [hmet, houtcome]
  | unmet hmet houtcome _ =>
    rw [hmet, houtcome, hlist]
    rfl

theorem of_found (h : Searches store index list search)
    {found : LocalVariableHandle × LocalVariable} (hfound : search.outcome = .ok (some found)) :
    firstMet? store index list.lookups = some found := by
  cases h with
  | met hmet houtcome _ =>
    rw [houtcome] at hfound
    cases hfound
    exact hmet
  | unmet hmet houtcome _ =>
    rw [houtcome] at hfound
    obtain ⟨rows, -, hnone⟩ := map_eq_ok_iff.1 hfound
    cases hnone

/-- Where a list fails, a search has found something before the failure or fails as the list does.
What it found is not behind the failure, since a list does not go on behind one. -/
theorem of_failed (h : Searches store index list search) (hlist : list.Prompt store)
    (hsearch : search.Prompt store) {e : DebugError} (hfailed : list.outcome = .error e) :
    ∃ before last, list.lookups = before ++ [last] ∧ store.Answers before ∧
      store last = .error e ∧
      ((firstMet? store index before = none ∧ search.outcome = .error e) ∨
        ∃ found, firstMet? store index before = some found ∧
          search.outcome = .ok (some found) ∧ search.lookups <+: before) := by
  cases hlist with
  | ok houtcome _ =>
    rw [hfailed] at houtcome
    cases houtcome
  | @failed e' before last houtcome hlookups hbefore hlast =>
    obtain rfl : e = e' := Except.error.inj (hfailed.symm.trans houtcome)
    have hfirst := firstMet?_of_failed hlast index before
    rw [← hlookups] at hfirst
    refine ⟨before, last, hlookups, hbefore, hlast, ?_⟩
    cases h with
    | unmet hmet hnone _ =>
      rw [hfailed] at hnone
      exact Or.inl ⟨hfirst.symm.trans hmet, hnone⟩
    | @met found hmet hfound hprefix =>
      refine Or.inr ⟨found, hfirst.symm.trans hmet, hfound, ?_⟩
      cases hsearch with
      | failed hsearchFailed =>
        rw [hfound] at hsearchFailed
        cases hsearchFailed
      | ok _ hanswers =>
        rw [hlookups] at hprefix
        exact prefix_of_failed hprefix hanswers hlast

end Searches

/-- If the list of all variables can be made, a search finds what it holds. -/
theorem firstOfSlot_outcome {method : MethodHandle} {index : Nat}
    {rows : List (LocalVariableHandle × LocalVariable)}
    (h : ((walk method).run store).outcome = .ok rows) :
    ((firstOfSlot method index).run store).outcome =
      .ok (rows.find? fun (_, row) => row.index = index) := by
  rw [(searches_firstOfSlot method index).of_listed h, firstMet?, variablesMet_walk h]

/-- What the list of all variables holds of a slot is what its lookups met of it. -/
theorem find?_slots (index : Nat) (lookups : List Lookup) :
    (((variablesMet store lookups).map fun (_, row) => (⟨row.index, row.name⟩ : NamedSlot)).find?
      fun slot => slot.index = index).map NamedSlot.name =
      (firstMet? store index lookups).map fun (_, row) => row.name := by
  rw [List.find?_map, Option.map_map, firstMet?]
  rfl

end Query

/-! ## Answers about a slot -/

namespace Provider

open Query

/-- How the name and the handle that are found for a slot go with the list of all variables. -/
structure SlotAgrees (store : Store) (index : Nat) (list : Run (List NamedSlot))
    (name : Run (Option String)) (handle : Run (Option LocalVariableHandle)) : Prop where
  /-- The list holds the variables that its lookups met, and what is found for the slot is what the
  first variable of the slot has there. -/
  listed : ∀ slots, list.outcome = .ok slots →
    slots = (variablesMet store list.lookups).map (fun (_, row) => ⟨row.index, row.name⟩) ∧
      name.outcome = .ok ((slots.find? fun slot => slot.index = index).map NamedSlot.name) ∧
      handle.outcome = .ok ((firstMet? store index list.lookups).map fun (found, _) => found)
  /-- If the list fails, nothing else is found than a variable that was met before the failure, and
  without one the error is the same. -/
  failed : ∀ e, list.outcome = .error e →
    ∃ before last, list.lookups = before ++ [last] ∧ store.Answers before ∧
      store last = .error e ∧
      ((firstMet? store index before = none ∧ name.outcome = .error e ∧
          handle.outcome = .error e) ∨
        ∃ found row, firstMet? store index before = some (found, row) ∧
          name.outcome = .ok (some row.name) ∧ handle.outcome = .ok (some found) ∧
          name.lookups <+: before ∧ handle.lookups <+: before)
  /-- A handle that is found is that of a variable of the slot with the name that is found. -/
  row : ∀ found, handle.outcome = .ok (some found) →
    ∃ row, store (.localVariable found) = .ok row ∧ row.index = index ∧
      name.outcome = .ok (some row.name)

/-- **What is found for a slot.** Whatever the lookups give, the name and the handle of a slot are
those of the first variable of the slot that a list of all variables meets, also if the list fails
behind it. If there is none, they fail as the list does. -/
theorem slotAgrees_of_store (config : ProviderConfig) (cache : TypeCache) (store : Store)
    (method : MethodHandle) (index : Nat) :
    let provider : Provider := ⟨config, some store, cache⟩
    SlotAgrees store index (provider.answer (.localVariables method)).1
      (provider.answer (.variableName method index)).1
      (provider.answer (.findVariable method index)).1 := by
  intro provider
  have hlist : (provider.answer (.localVariables method)).1 = _ :=
    run_bind_pure (walk method) _ store
  have hname : (provider.answer (.variableName method index)).1 = _ :=
    run_bind_pure (firstOfSlot method index) _ store
  have hhandle : (provider.answer (.findVariable method index)).1 = _ :=
    run_bind_pure (firstOfSlot method index) _ store
  rw [hlist, hname, hhandle]
  have hsearch : Searches store index ((walk method).run store)
      ((firstOfSlot method index).run store) := searches_firstOfSlot method index
  constructor
  case listed =>
    intro slots hslots
    obtain ⟨rows, hrows, rfl⟩ := map_eq_ok_iff.1 hslots
    have hmet := variablesMet_walk hrows
    have hfirst := hsearch.of_listed hrows
    refine ⟨by rw [hmet], ?_, ?_⟩
    · rw [← hmet, find?_slots, hfirst]
      rfl
    · rw [hfirst]
      rfl
  case failed =>
    intro e hfailed
    have hwalk : ((walk method).run store).outcome = .error e := map_eq_error_iff.1 hfailed
    obtain ⟨before, last, hlookups, hbefore, hlast, hnone | hfound⟩ :=
      hsearch.of_failed (prompt_walk method) (prompt_firstOfSlot method index) hwalk
    · obtain ⟨hmet, houtcome⟩ := hnone
      refine ⟨before, last, hlookups, hbefore, hlast, Or.inl ⟨hmet, ?_, ?_⟩⟩
      · rw [houtcome]
        rfl
      · rw [houtcome]
        rfl
    · obtain ⟨⟨found, row⟩, hmet, houtcome, hprefix⟩ := hfound
      refine ⟨before, last, hlookups, hbefore, hlast,
        Or.inr ⟨found, row, hmet, ?_, ?_, hprefix, hprefix⟩⟩
      · rw [houtcome]
        rfl
      · rw [houtcome]
        rfl
  case row =>
    intro handle hhandle
    obtain ⟨found, hfound, hsome⟩ := map_eq_ok_iff.1 hhandle
    obtain ⟨⟨handle, row⟩, rfl, rfl⟩ := Option.map_eq_some_iff.1 hsome
    obtain ⟨hrow, hindex⟩ := row_of_firstMet? (hsearch.of_found hfound)
    refine ⟨row, hrow, hindex, ?_⟩
    rw [hfound]
    rfl

end Provider

end PortablePdb
