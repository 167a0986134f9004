import PortablePdb.Event
import PortablePdb.Store

/-!
# Queries

A query is a computation that asks a store, may fail, and reports events. Running it gives its
outcome together with the lookups that it made and the events that it reported, each in order.
The first failed lookup ends a query, unless the query says otherwise.

* `run_bind_ok`, `run_bind_error`: what running one query after another gives.
* `outcome_bind`: as far as outcomes go, a composed query is a composed computation.
* `run_ask`: a lookup is made once and its answer is the outcome.
* `run_ask_bind_ok`, `run_ask_bind_error`: how a query goes that starts with a lookup.
-/

namespace PortablePdb

/-- What running a query gives. -/
structure Run (α : Type) where
  outcome : Except DebugError α
  lookups : List Lookup
  events : List Event

namespace Run

variable {α β : Type}

def pure (a : α) : Run α := ⟨.ok a, [], []⟩

/-- A run continued by another one, unless it failed. -/
def bind (run : Run α) (next : α → Run β) : Run β :=
  match run.outcome with
  | .error e => ⟨.error e, run.lookups, run.events⟩
  | .ok a =>
    let rest := next a
    ⟨rest.outcome, run.lookups ++ rest.lookups, run.events ++ rest.events⟩

end Run

def Query (α : Type) := Store → Run α

namespace Query

variable {α β : Type}

def run (query : Query α) (store : Store) : Run α := query store

instance : Monad Query where
  pure a := fun _ => Run.pure a
  bind query next := fun store => (query.run store).bind fun a => (next a).run store

def ask (lookup : Lookup) : Query lookup.Answer := fun store => ⟨store lookup, [lookup], []⟩

def emit (event : Event) : Query Unit := fun _ => ⟨.ok (), [], [event]⟩

/-! ## Running composed queries -/

@[simp] theorem run_pure (a : α) (store : Store) :
    (pure a : Query α).run store = ⟨.ok a, [], []⟩ := rfl

@[simp] theorem run_ask (lookup : Lookup) (store : Store) :
    (ask lookup).run store = ⟨store lookup, [lookup], []⟩ := rfl

@[simp] theorem run_emit (event : Event) (store : Store) :
    (emit event).run store = ⟨.ok (), [], [event]⟩ := rfl

theorem run_bind (query : Query α) (next : α → Query β) (store : Store) :
    (query >>= next).run store = (query.run store).bind fun a => (next a).run store := rfl

/-- If the first query succeeds, the second one goes on with its value. Lookups and events add up.
-/
theorem run_bind_ok {query : Query α} {store : Store} {a : α}
    (h : (query.run store).outcome = .ok a) (next : α → Query β) :
    (query >>= next).run store =
      ⟨((next a).run store).outcome, (query.run store).lookups ++ ((next a).run store).lookups,
        (query.run store).events ++ ((next a).run store).events⟩ := by
  rw [run_bind, Run.bind, h]

theorem run_bind_error {query : Query α} {store : Store} {e : DebugError}
    (h : (query.run store).outcome = .error e) (next : α → Query β) :
    (query >>= next).run store =
      ⟨.error e, (query.run store).lookups, (query.run store).events⟩ := by
  rw [run_bind, Run.bind, h]

/-- A query that starts with a lookup goes on with the answer, if there is one. -/
theorem run_ask_bind_ok {lookup : Lookup} {store : Store} {answer : lookup.Answer}
    (h : store lookup = .ok answer) (next : lookup.Answer → Query α) :
    (ask lookup >>= next).run store =
      ⟨((next answer).run store).outcome, lookup :: ((next answer).run store).lookups,
        ((next answer).run store).events⟩ := by
  have hask : ((ask lookup).run store).outcome = .ok answer := h
  exact run_bind_ok hask next

/-- A query whose first lookup fails asks nothing else. -/
theorem run_ask_bind_error {lookup : Lookup} {store : Store} {e : DebugError}
    (h : store lookup = .error e) (next : lookup.Answer → Query α) :
    (ask lookup >>= next).run store = ⟨.error e, [lookup], []⟩ := by
  have hask : ((ask lookup).run store).outcome = .error e := h
  exact run_bind_error hask next

/-- A run continued by a pure function. -/
theorem run_bind_pure (query : Query α) (f : α → β) (store : Store) :
    (query >>= fun a => pure (f a)).run store =
      ⟨(query.run store).outcome.map f, (query.run store).lookups, (query.run store).events⟩ := by
  rw [run_bind, Run.bind]
  cases (query.run store).outcome with
  | error e => rfl
  | ok a => simp only [run_pure, List.append_nil]; rfl

/-- As far as outcomes go, running a query is the same as running a computation that may fail. -/
theorem outcome_bind (query : Query α) (next : α → Query β) (store : Store) :
    ((query >>= next).run store).outcome =
      (query.run store).outcome >>= fun a => ((next a).run store).outcome := by
  rw [run_bind, Run.bind]
  cases (query.run store).outcome with
  | error e => rfl
  | ok a => rfl

theorem outcome_bind_ok {query : Query α} {store : Store} {a : α}
    (h : (query.run store).outcome = .ok a) (next : α → Query β) :
    ((query >>= next).run store).outcome = ((next a).run store).outcome := by
  rw [run_bind_ok h]

end Query

end PortablePdb
