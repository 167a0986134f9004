import Mathlib.Data.List.Forall2
import Mathlib.Data.List.Induction
import Mathlib.Data.List.Nodup
import Mathlib.Data.List.Pairwise
import PortablePdb.Proofs.Metadata.Steps
import PortablePdb.Provider

/-!
# Scopes and their variables

A scope row tells where its variables begin in the variable table, but not where they end: that is
where those of the next scope begin, whichever method that one is of. Steps of building lay scopes
out one behind the other, so that each of them gets back the variables that it was declared with
(`Laid.scopeVariables`), none of the variables is left over (`Laid.exists_runs`), and none of them
belongs to two scopes (`Laid.existsUnique_scope`).

* `laid_build`: what the two tables hold once some steps are carried out.
* `scopesKept_of_fit`: what lookups and requests find there.
-/

namespace PortablePdb

/-! ## Declarations -/

/-- What a step that adds a scope is given. -/
structure ScopeDeclaration where
  method : MethodHandle
  start : UInt32
  length : UInt32
  localVariables : List LocalVariable
  deriving DecidableEq

namespace ScopeDeclaration

def slots (declaration : ScopeDeclaration) : List NamedSlot :=
  declaration.localVariables.map fun row => ⟨row.index, row.name⟩

/-- The row of a scope whose variables begin at the row id `first`. -/
def row (declaration : ScopeDeclaration) (first : Nat) : LocalScope where
  method := declaration.method
  importScope := 0
  variableList := first
  constantList := 0
  start := declaration.start
  length := declaration.length

/-- The rows of scopes whose variables follow one another, from the row id `first` on. -/
def rows (first : Nat) : List ScopeDeclaration → List LocalScope
  | [] => []
  | declaration :: more =>
    declaration.row first :: rows (first + declaration.localVariables.length) more

/-- The variables of some scopes together. -/
def allVariables (declarations : List ScopeDeclaration) : List LocalVariable :=
  declarations.flatMap (·.localVariables)

theorem allVariables_append (first second : List ScopeDeclaration) :
    allVariables (first ++ second) = allVariables first ++ allVariables second :=
  List.flatMap_append

/-- The rows of later scopes start where the variables of the earlier ones end. -/
theorem rows_append (first : Nat) (front back : List ScopeDeclaration) :
    rows first (front ++ back) =
      rows first front ++ rows (first + (allVariables front).length) back := by
  induction front generalizing first with
  | nil => rfl
  | cons declaration more ih =>
    simp only [List.cons_append, rows, ih, allVariables, List.flatMap_cons, List.length_append,
      Nat.add_assoc]

@[simp] theorem length_rows (first : Nat) (declarations : List ScopeDeclaration) :
    (rows first declarations).length = declarations.length := by
  induction declarations generalizing first with
  | nil => rfl
  | cons declaration more ih => simp only [rows, List.length_cons, ih]

theorem getElem?_rows (first : Nat) (front back : List ScopeDeclaration)
    (declaration : ScopeDeclaration) :
    (rows first (front ++ declaration :: back))[front.length]? =
      some (declaration.row (first + (allVariables front).length)) := by
  rw [rows_append, List.getElem?_append_right (by simp), length_rows, Nat.sub_self]
  rfl

/-- Scopes fit into the tables if there are row ids for all of them and for all their variables. One
must be left for the first variable of the last scope, even if it has none. -/
structure Fit (declarations : List ScopeDeclaration) : Prop where
  scopes : declarations.length < rowLimit
  localVariables : (allVariables declarations).length < rowLimit
  lastScope : (allVariables declarations.dropLast).length + 1 < rowLimit

theorem Fit.of_concat {declarations : List ScopeDeclaration} {last : ScopeDeclaration}
    (h : Fit (declarations ++ [last])) : Fit declarations where
  scopes := by
    have := h.scopes
    rw [List.length_append] at this
    omega
  localVariables := by
    have := h.lastScope
    rw [List.dropLast_concat] at this
    omega
  lastScope := by
    obtain ⟨rest, hrest⟩ := List.dropLast_prefix declarations
    have := h.lastScope
    rw [List.dropLast_concat, ← hrest, allVariables_append, List.length_append] at this
    omega

theorem Fit.of_prefix {front declarations : List ScopeDeclaration} (h : Fit declarations)
    (hfront : front <+: declarations) : Fit front := by
  obtain ⟨back, rfl⟩ := hfront
  induction back using List.reverseRecOn with
  | nil => rwa [List.append_nil] at h
  | append_singleton back last ih =>
    rw [← List.append_assoc] at h
    exact ih h.of_concat

end ScopeDeclaration

/-- A scope that was added: what it was declared with, and the handles that the step gave. -/
structure AddedScope where
  declaration : ScopeDeclaration
  handles : ScopeHandles

namespace AddedScope

/-- The row id behind the variables of some scopes. -/
def rowAfter (added : List AddedScope) : Nat :=
  1 + (ScopeDeclaration.allVariables (added.map (·.declaration))).length

theorem rowAfter_append (first second : List AddedScope) :
    rowAfter (first ++ second) = rowAfter first +
      (ScopeDeclaration.allVariables (second.map (·.declaration))).length := by
  rw [rowAfter, List.map_append, ScopeDeclaration.allVariables_append, List.length_append,
    ← Nat.add_assoc, rowAfter]

theorem rowAfter_concat (front : List AddedScope) (s : AddedScope) :
    rowAfter (front ++ [s]) = rowAfter front + s.declaration.localVariables.length := by
  rw [rowAfter_append]
  simp [ScopeDeclaration.allVariables]

end AddedScope

namespace BuildStep

def declaration? : BuildStep → Option ScopeDeclaration
  | .scope owner start length localVariables => some ⟨owner, start, length, localVariables⟩
  | _ => none

theorem eq_scope_of_declaration? {step : BuildStep} {declaration : ScopeDeclaration}
    (h : step.declaration? = some declaration) :
    step = .scope declaration.method declaration.start declaration.length
      declaration.localVariables := by
  cases step with
  | scope => cases h; rfl
  | _ => cases h

/-- The scopes that some steps are to add, in the order of the steps. -/
def declarations (steps : List BuildStep) : List ScopeDeclaration := steps.filterMap declaration?

def Outcome.scope? : Outcome → Option AddedScope
  | ⟨.scope owner start length localVariables, .ok handles⟩ =>
    some ⟨⟨owner, start, length, localVariables⟩, handles⟩
  | _ => none

/-- The scopes that some steps added, in the order of the steps. -/
def addedScopes (steps : List BuildStep) : List AddedScope := (outcomes steps).filterMap (·.scope?)

/-- A further step adds at most one scope, at the end. -/
theorem addedScopes_concat (steps : List BuildStep) (step : BuildStep) :
    addedScopes (steps ++ [step]) =
      addedScopes steps ++ (Outcome.scope? ⟨step, (step.apply (.build steps)).1⟩).toList := by
  rw [addedScopes, outcomes_concat, List.filterMap_append]
  rfl

theorem scope?_of_not_scope {step : BuildStep} (receipt : Except DebugError step.Receipt)
    (h : step.declaration? = none) : Outcome.scope? ⟨step, receipt⟩ = none := by
  cases step with
  | scope => cases h
  | _ => rfl

end BuildStep

/-! ## Adding a scope -/

namespace Metadata

/-- Two lists of handles and rows match if each handle is that of its row. -/
def Found {table : TableId} {Row : Type} (rows : Table table Row) :
    List (Handle table) → List Row → Prop :=
  List.Forall₂ fun handle row => rows.get? handle = some row

theorem Found.extends {table : TableId} {Row : Type} {old new : Table table Row}
    {handles : List (Handle table)} {rows : List Row} (h : Found old handles rows)
    (hnew : old.Extends new) : Found new handles rows :=
  h.imp fun _ _ hrow => hnew.get? hrow

/-- Where there is room for some variables they are added one behind the other. -/
theorem exists_addVariables (added : List LocalVariable)
    {rows : Table .localVariable LocalVariable} (h : rows.HasRoom added.length) :
    ∃ handles next, addVariables added rows = (.ok handles, next) ∧
      next.handles = rows.handles ++ handles ∧ Found next handles added := by
  induction added generalizing rows with
  | nil => exact ⟨[], rows, rfl, (List.append_nil _).symm, .nil⟩
  | cons row more ih =>
    have hroom : rows.size + (more.length + 1) < rowLimit := h
    have hone : rows.HasRoom 1 := by
      show rows.size + 1 < rowLimit
      omega
    obtain ⟨handle, middle, hadd⟩ := Table.exists_add? hone row
    have hmore : middle.HasRoom more.length := by
      show middle.size + more.length < rowLimit
      rw [(Table.size_add hadd).1]
      omega
    obtain ⟨handles, next, hnext, hhandles, hfound⟩ := ih hmore
    have hextends : middle.Extends next := by
      have h := extends_addVariables more middle
      rwa [hnext] at h
    refine ⟨handle :: handles, next, ?_, ?_, ?_⟩
    · simp only [addVariables, hadd, hnext, Except.map]
    · rw [hhandles, Table.handles_add? hadd, List.append_assoc, List.singleton_append]
    · exact .cons (hextends.get? (Table.get?_add hadd)) hfound

/-- How the tables keep some scopes: their rows are in the order of the scopes, and so are the rows
of all their variables, with nothing in between. -/
structure Laid (metadata : Metadata) (added : List AddedScope) : Prop where
  scopes : metadata.scopes.handles = added.map (·.handles.scope)
  rows : metadata.scopes.log = ScopeDeclaration.rows 1 (added.map (·.declaration))
  localVariables : metadata.localVariables.handles = added.flatMap (·.handles.localVariables)
  declared : ∀ s ∈ added, Found metadata.localVariables s.handles.localVariables
    s.declaration.localVariables

namespace Laid

variable {metadata : Metadata} {added : List AddedScope}

theorem empty : Laid .empty [] where
  scopes := rfl
  rows := rfl
  localVariables := rfl
  declared := fun _ hs => nomatch hs

theorem of_eq {other : Metadata} (h : Laid metadata added)
    (hscopes : other.scopes = metadata.scopes)
    (hvariables : other.localVariables = metadata.localVariables) : Laid other added where
  scopes := by rw [hscopes, h.scopes]
  rows := by rw [hscopes, h.rows]
  localVariables := by rw [hvariables, h.localVariables]
  declared := by rw [hvariables]; exact h.declared

theorem size_scopes (h : Laid metadata added) : metadata.scopes.size = added.length := by
  rw [← Table.length_handles, h.scopes, List.length_map]

theorem length_localVariables (h : Laid metadata added) {s : AddedScope} (hs : s ∈ added) :
    s.handles.localVariables.length = s.declaration.localVariables.length :=
  (h.declared s hs).length_eq

theorem length_flatMap (h : Laid metadata added) {part : List AddedScope} (hpart : part ⊆ added) :
    (part.flatMap (·.handles.localVariables)).length =
      (ScopeDeclaration.allVariables (part.map (·.declaration))).length := by
  rw [ScopeDeclaration.allVariables, List.flatMap_map, List.length_flatMap, List.length_flatMap]
  congr 1
  exact List.map_congr_left fun s hs => h.length_localVariables (hpart hs)

/-- The next variable gets the row behind those of all scopes. -/
theorem size_localVariables (h : Laid metadata added) :
    metadata.localVariables.size + 1 = AddedScope.rowAfter added := by
  rw [← Table.length_handles, h.localVariables, h.length_flatMap (List.Subset.refl added),
    Nat.add_comm]
  rfl

/-- One more scope fits into the tables if there is room for its row and for its variables. -/
theorem fit_concat_iff (h : Laid metadata added) (declaration : ScopeDeclaration) :
    ScopeDeclaration.Fit (added.map (·.declaration) ++ [declaration]) ↔
      metadata.scopes.HasRoom 1 ∧
        metadata.localVariables.HasRoom declaration.localVariables.length ∧
        metadata.localVariables.HasRoom 1 := by
  have hsize : metadata.localVariables.size =
      (ScopeDeclaration.allVariables (added.map (·.declaration))).length := by
    have := h.size_localVariables
    rw [AddedScope.rowAfter] at this
    omega
  have hscopes : metadata.scopes.HasRoom 1 ↔
      (added.map (·.declaration) ++ [declaration]).length < rowLimit := by
    rw [Table.HasRoom, h.size_scopes, List.length_append, List.length_map, List.length_singleton]
  have hvariables : metadata.localVariables.HasRoom declaration.localVariables.length ↔
      (ScopeDeclaration.allVariables (added.map (·.declaration) ++ [declaration])).length <
        rowLimit := by
    rw [Table.HasRoom, hsize, ScopeDeclaration.allVariables_append, List.length_append]
    simp [ScopeDeclaration.allVariables]
  have hfirst : metadata.localVariables.HasRoom 1 ↔
      (ScopeDeclaration.allVariables
        (added.map (·.declaration) ++ [declaration]).dropLast).length + 1 < rowLimit := by
    rw [Table.HasRoom, hsize, List.dropLast_concat]
  rw [hscopes, hvariables, hfirst]
  exact ⟨fun hfit => ⟨hfit.scopes, hfit.localVariables, hfit.lastScope⟩,
    fun ⟨hscopes, hvariables, hfirst⟩ => ⟨hscopes, hvariables, hfirst⟩⟩

/-- A scope is added behind the others, and its variables behind theirs. -/
theorem exists_addScope (h : Laid metadata added) (declaration : ScopeDeclaration)
    (hfit : ScopeDeclaration.Fit (added.map (·.declaration) ++ [declaration])) :
    ∃ handles next, metadata.addScope declaration.method declaration.start declaration.length
        declaration.localVariables = (.ok handles, next) ∧
      Laid next (added ++ [⟨declaration, handles⟩]) := by
  obtain ⟨hscopeRoom, hroom, hfirstRoom⟩ := (h.fit_concat_iff declaration).1 hfit
  obtain ⟨scope, scopes, hscope⟩ := Table.exists_add? hscopeRoom
    (metadata.nextScope declaration.method declaration.start declaration.length)
  obtain ⟨first, hfirst⟩ := Table.exists_nextHandle? hfirstRoom
  obtain ⟨handles, next, hnext, hhandles, hfound⟩ := exists_addVariables _ hroom
  have hextends : metadata.localVariables.Extends next := by
    have h := extends_addVariables declaration.localVariables metadata.localVariables
    rwa [hnext] at h
  refine ⟨⟨scope, handles⟩, { metadata with scopes := scopes, localVariables := next }, ?_, ?_⟩
  · simp only [addScope, hscope, hfirst, hnext]
  · constructor
    · rw [Table.handles_add? hscope, h.scopes, List.map_append, List.map_singleton]
    · have hfirst := h.size_localVariables
      rw [AddedScope.rowAfter] at hfirst
      rw [Table.log_add? hscope, h.rows, List.map_append, ScopeDeclaration.rows_append,
        List.map_singleton, ← hfirst]
      rfl
    · rw [hhandles, h.localVariables, List.flatMap_append, List.flatMap_singleton]
    · intro s hs
      rcases List.mem_append.1 hs with hold | hnew
      · exact (h.declared s hold).extends hextends
      · cases List.mem_singleton.1 hnew
        exact hfound

end Laid

/-! ## All steps -/

theorem apply_of_not_scope (metadata : Metadata) {step : BuildStep} (h : step.declaration? = none) :
    (step.apply metadata).2.scopes = metadata.scopes ∧
      (step.apply metadata).2.localVariables = metadata.localVariables := by
  cases step with
  | scope => cases h
  | document path =>
    obtain ⟨blobs, documents, h⟩ := metadata.addDocument_changes path
    rw [BuildStep.apply, h]
    exact ⟨rfl, rfl⟩
  | documentRow row =>
    obtain ⟨documents, h⟩ := metadata.addDocumentRow_changes row
    rw [BuildStep.apply, h]
    exact ⟨rfl, rfl⟩
  | blob data => exact ⟨rfl, rfl⟩
  | method owner document points => exact ⟨rfl, rfl⟩
  | record row =>
    obtain ⟨records, h⟩ := metadata.addRecord_changes row
    rw [BuildStep.apply, h]
    exact ⟨rfl, rfl⟩

/-- **The tables of scopes and variables.** If the scopes fit into the tables they are all added,
whatever steps there are besides, and are laid out in the order of the steps. -/
theorem laid_build {steps : List BuildStep}
    (hfit : ScopeDeclaration.Fit (BuildStep.declarations steps)) :
    (BuildStep.addedScopes steps).map (·.declaration) = BuildStep.declarations steps ∧
      Laid (build steps) (BuildStep.addedScopes steps) := by
  induction steps using List.reverseRecOn with
  | nil => exact ⟨rfl, .empty⟩
  | append_singleton steps step ih =>
    cases hstep : step.declaration? with
    | none =>
      have hsame : BuildStep.declarations (steps ++ [step]) = BuildStep.declarations steps := by
        simp [BuildStep.declarations, hstep]
      obtain ⟨hscopes, hvariables⟩ := apply_of_not_scope (build steps) hstep
      rw [hsame] at hfit ⊢
      obtain ⟨hdeclared, hlaid⟩ := ih hfit
      rw [BuildStep.addedScopes_concat, BuildStep.scope?_of_not_scope _ hstep, build_concat]
      simpa using ⟨hdeclared, hlaid.of_eq hscopes hvariables⟩
    | some declaration =>
      have hmore : BuildStep.declarations (steps ++ [step]) =
          BuildStep.declarations steps ++ [declaration] := by
        simp [BuildStep.declarations, hstep]
      rw [hmore] at hfit ⊢
      obtain ⟨hdeclared, hlaid⟩ := ih hfit.of_concat
      rw [← hdeclared] at hfit
      obtain ⟨handles, next, hadd, hnext⟩ := hlaid.exists_addScope _ hfit
      cases BuildStep.eq_scope_of_declaration? hstep
      rw [BuildStep.addedScopes_concat, build_concat, BuildStep.apply, hadd]
      exact ⟨by rw [List.map_append, hdeclared]; rfl, hnext⟩

/-! ## Lookups -/

/-- The scopes of a method are those whose declaration names it, in the order in which they were
added. -/
theorem scopes_of_method (method : MethodHandle) (first : Nat) (added : List AddedScope) :
    (((added.map (·.handles.scope)).zip
      (ScopeDeclaration.rows first (added.map (·.declaration)))).filterMap fun (scope, row) =>
        if row.method = method then some scope else none) =
      (added.filter (·.declaration.method = method)).map (·.handles.scope) := by
  induction added generalizing first with
  | nil => rfl
  | cons s more ih =>
    simp only [List.map_cons, ScopeDeclaration.rows, List.zip_cons_cons, List.filterMap_cons, ih]
    by_cases hmethod : s.declaration.method = method
    · simp [hmethod, ScopeDeclaration.row]
    · simp [hmethod, ScopeDeclaration.row]

/-- A run of handles from some row id on is given back by the range of its row ids. -/
theorem handleRange_of_rids {table : TableId} {handles : List (Handle table)} {first : Nat}
    (h : handles.map Handle.rid = List.range' first handles.length) :
    handleRange first (first + handles.length) = handles := by
  rw [handleRange, Nat.add_sub_cancel_left, ← h, List.filterMap_map]
  have hof : (Handle.ofRid? : Nat → Option (Handle table)) ∘ Handle.rid = some :=
    funext Handle.ofRid?_rid
  rw [hof, List.filterMap_some]

theorem rids_of_between {table : TableId} {Row : Type} {rows : Table table Row}
    {front middle back : List (Handle table)} (h : rows.handles = front ++ middle ++ back) :
    middle.map Handle.rid = List.range' (1 + front.length) middle.length := by
  have hall := rows.map_rid_handles
  rw [h, List.map_append, List.map_append] at hall
  obtain ⟨n, -, hfront, -⟩ := List.range'_eq_append_iff.1 hall.symm
  obtain ⟨k, hk, hfirst, hmiddle⟩ := List.range'_eq_append_iff.1 hfront.symm
  have hlengthFront := congrArg List.length hfirst
  have hlength := congrArg List.length hmiddle
  simp only [List.length_map, List.length_range'] at hlengthFront hlength
  rw [hmiddle, hlength, hlengthFront, Nat.mul_one]

theorem scopeVariables_of_size_lt {metadata : Metadata} {scope : LocalScopeHandle}
    (h : metadata.scopes.size < scope.rid) :
    metadata.scopeVariables scope = .error (.invalidHandle scope.token) := by
  rw [scopeVariables, resolve, Table.get?_eq_none_iff.2 h]
  rfl

theorem Found.variableRows_outcome {metadata : Metadata} {handles : List LocalVariableHandle}
    {rows : List LocalVariable} (h : Found metadata.localVariables handles rows) :
    ((Query.variableRows handles).run metadata.store).outcome = .ok (handles.zip rows) := by
  induction h with
  | nil => rfl
  | @cons handle row more rows hrow _ ih =>
    have hfound : ((Query.ask (.localVariable handle)).run metadata.store).outcome = .ok row :=
      resolve_of_get? hrow
    rw [Query.variableRows, Query.outcome_bind_ok hfound, Query.outcome_bind_ok ih]
    rfl

namespace Laid

variable {metadata : Metadata} {added : List AddedScope}

theorem rid_scope (h : Laid metadata added) {front back : List AddedScope} {s : AddedScope}
    (hadded : added = front ++ s :: back) : s.handles.scope.rid = front.length + 1 := by
  have hscopes : metadata.scopes.handles =
      front.map (·.handles.scope) ++ [s.handles.scope] ++ back.map (·.handles.scope) := by
    rw [h.scopes, hadded]
    simp
  have hrid := rids_of_between hscopes
  simpa [Nat.add_comm] using hrid

/-- The variables of a scope have consecutive rows, the first of which its row names. -/
theorem rids_localVariables (h : Laid metadata added) {front back : List AddedScope}
    {s : AddedScope} (hadded : added = front ++ s :: back) :
    s.handles.localVariables.map Handle.rid =
      List.range' (AddedScope.rowAfter front) s.handles.localVariables.length := by
  have hvariables : metadata.localVariables.handles =
      front.flatMap (·.handles.localVariables) ++ s.handles.localVariables ++
        back.flatMap (·.handles.localVariables) := by
    rw [h.localVariables, hadded]
    simp
  have hfront : front ⊆ added := hadded ▸ List.subset_append_left front (s :: back)
  rw [rids_of_between hvariables, h.length_flatMap hfront, AddedScope.rowAfter]

theorem row_scope (h : Laid metadata added) {front back : List AddedScope} {s : AddedScope}
    (hadded : added = front ++ s :: back) :
    metadata.scopes.log[front.length]? = some (s.declaration.row (AddedScope.rowAfter front)) := by
  have hrow := ScopeDeclaration.getElem?_rows 1 (front.map (·.declaration))
    (back.map (·.declaration)) s.declaration
  rwa [List.length_map, ← List.map_cons, ← List.map_append, ← hadded, ← h.rows] at hrow

/-- The variables of a scope end where those of the next one begin, or else the table ends. -/
theorem variablesEnd_scope (h : Laid metadata added) {front back : List AddedScope}
    {s : AddedScope} (hadded : added = front ++ s :: back) :
    metadata.variablesEnd s.handles.scope = AddedScope.rowAfter (front ++ [s]) := by
  rw [variablesEnd, Table.find?_ofParts _ s.handles.scope.rid_valid.2, h.rid_scope hadded]
  cases back with
  | nil =>
    have hend : metadata.scopes.log.length ≤ front.length + 1 := by
      have := h.size_scopes
      rw [hadded, List.length_append] at this
      rw [Table.length_log]
      exact Nat.le_of_eq this
    rw [List.getElem?_eq_none hend, ← hadded]
    exact h.size_localVariables
  | cons next more =>
    have hnext : added = (front ++ [s]) ++ next :: more := by simp [hadded]
    have hrow := h.row_scope hnext
    rw [List.length_append, List.length_singleton] at hrow
    rw [hrow]
    rfl

/-- Each scope gives back the variables that it was declared with. -/
theorem scopeVariables (h : Laid metadata added) {s : AddedScope} (hs : s ∈ added) :
    metadata.scopeVariables s.handles.scope = .ok s.handles.localVariables := by
  obtain ⟨front, back, hadded⟩ := List.append_of_mem hs
  have hrow : resolve metadata.scopes s.handles.scope =
      .ok (s.declaration.row (AddedScope.rowAfter front)) := by
    rw [resolve, Table.get?_eq_getElem?_log, h.rid_scope hadded, Nat.add_sub_cancel,
      h.row_scope hadded]
  have hend := h.variablesEnd_scope hadded
  have hstop := AddedScope.rowAfter_concat front s
  rw [← h.length_localVariables hs] at hstop
  have htable : AddedScope.rowAfter (front ++ [s]) ≤ metadata.localVariables.size + 1 := by
    rw [h.size_localVariables, hadded, List.append_cons front s back,
      AddedScope.rowAfter_append _ back]
    omega
  have hbounds : 0 < AddedScope.rowAfter front ∧
      AddedScope.rowAfter front ≤ AddedScope.rowAfter (front ++ [s]) ∧
      AddedScope.rowAfter (front ++ [s]) ≤ metadata.localVariables.size + 1 := by
    refine ⟨?_, ?_, htable⟩
    · rw [AddedScope.rowAfter]
      omega
    · omega
  rw [Metadata.scopeVariables, hrow, hend]
  refine (if_pos hbounds).trans ?_
  rw [hstop]
  exact congrArg Except.ok (handleRange_of_rids (h.rids_localVariables hadded))

/-- The variables of all scopes together are the whole variable table. -/
theorem exists_runs (h : Laid metadata added) :
    ∃ runs : List (List LocalVariableHandle),
      metadata.scopes.handles.map metadata.scopeVariables = runs.map .ok ∧
        runs.flatten.map Handle.rid = List.range' 1 metadata.localVariables.size := by
  refine ⟨added.map (·.handles.localVariables), ?_, ?_⟩
  · rw [h.scopes, List.map_map, List.map_map]
    exact List.map_congr_left fun s hs => h.scopeVariables hs
  · rw [← List.flatMap_def, ← h.localVariables, Table.map_rid_handles]

/-- Each row of the table belongs to a scope that was added. -/
theorem exists_scope (h : Laid metadata added) {scope : LocalScopeHandle}
    (hrid : scope.rid ≤ metadata.scopes.size) : ∃ s ∈ added, s.handles.scope = scope := by
  have hmem := Table.mem_handles.2 hrid
  rwa [h.scopes, List.mem_map] at hmem

/-- A scope either was added, or there is no row of it. -/
theorem scopeVariables_cases (h : Laid metadata added) (scope : LocalScopeHandle) :
    (∃ s ∈ added, s.handles.scope = scope ∧
        metadata.scopeVariables scope = .ok s.handles.localVariables) ∨
      metadata.scopeVariables scope = .error (.invalidHandle scope.token) := by
  rcases Nat.lt_or_ge metadata.scopes.size scope.rid with hbehind | hrid
  · exact Or.inr (scopeVariables_of_size_lt hbehind)
  · obtain ⟨s, hs, rfl⟩ := h.exists_scope hrid
    exact Or.inl ⟨s, hs, rfl, h.scopeVariables hs⟩

/-- No variable belongs to two scopes. -/
theorem eq_of_mem (h : Laid metadata added) {s t : AddedScope} (hs : s ∈ added) (ht : t ∈ added)
    {handle : LocalVariableHandle} (hhandle : handle ∈ s.handles.localVariables)
    (hother : handle ∈ t.handles.localVariables) : s = t := by
  have hnodup : (added.flatMap (·.handles.localVariables)).Nodup := by
    apply List.Nodup.of_map Handle.rid
    rw [← h.localVariables, Table.map_rid_handles]
    exact List.nodup_range'
  obtain ⟨-, hdisjoint⟩ := List.nodup_flatMap.1 hnodup
  have hsymm : Std.Symm (Function.onFun List.Disjoint
      fun s : AddedScope => s.handles.localVariables) := ⟨fun _ _ => List.disjoint_symm⟩
  by_contra hne
  exact hdisjoint.forall hs ht hne hhandle hother

/-- The scopes share the variables out: each variable is in the list of exactly one of them. -/
theorem existsUnique_scope (h : Laid metadata added) {handle : LocalVariableHandle}
    (hrid : handle.rid ≤ metadata.localVariables.size) :
    ∃! scope, ∃ handles, metadata.scopeVariables scope = .ok handles ∧ handle ∈ handles := by
  have hmem := Table.mem_handles.2 hrid
  rw [h.localVariables, List.mem_flatMap] at hmem
  obtain ⟨s, hs, hhandle⟩ := hmem
  refine ⟨s.handles.scope, ⟨_, h.scopeVariables hs, hhandle⟩, ?_⟩
  rintro scope ⟨handles, hok, hother⟩
  rcases h.scopeVariables_cases scope with ⟨t, ht, rfl, hvariables⟩ | herror
  · rw [hvariables] at hok
    cases hok
    rw [h.eq_of_mem hs ht hhandle hother]
  · rw [herror] at hok
    cases hok

/-- The rows of the scopes are in order, so no list of variables ends before it starts. -/
theorem not_malformed (h : Laid metadata added) (scope : LocalScopeHandle) (reason : Malformation) :
    metadata.scopeVariables scope ≠ .error (.malformed reason) := by
  intro hmalformed
  rcases h.scopeVariables_cases scope with ⟨s, -, -, hvariables⟩ | herror
  · rw [hvariables] at hmalformed
    cases hmalformed
  · rw [herror] at hmalformed
    cases hmalformed

theorem methodScopes (h : Laid metadata added) (method : MethodHandle) :
    metadata.methodScopes method =
      (added.filter (·.declaration.method = method)).map (·.handles.scope) := by
  rw [Metadata.methodScopes, Table.entries_eq_zip, h.scopes, h.rows]
  exact scopes_of_method method 1 added

/-- The scopes of a method with all their variables, in the order in which they were added. -/
theorem scopeRows_outcome (h : Laid metadata added) {scopes : List AddedScope}
    (hscopes : scopes ⊆ added) :
    ((Query.scopeRows (scopes.map (·.handles.scope))).run metadata.store).outcome =
      .ok (scopes.flatMap fun s => s.handles.localVariables.zip s.declaration.localVariables) := by
  induction scopes with
  | nil => rfl
  | cons s more ih =>
    have hs : s ∈ added := hscopes List.mem_cons_self
    have hvariables : ((Query.ask (.localVariables s.handles.scope)).run metadata.store).outcome =
        .ok s.handles.localVariables := h.scopeVariables hs
    have hmore := ih fun t ht => hscopes (List.mem_cons_of_mem s ht)
    rw [List.map_cons, Query.scopeRows, Query.outcome_bind_ok hvariables,
      Query.outcome_bind_ok (h.declared s hs).variableRows_outcome, Query.outcome_bind_ok hmore]
    rfl

/-- A walk over the variables of a method meets those of its scopes, scope by scope. -/
theorem walk_outcome (h : Laid metadata added) (method : MethodHandle) :
    ((Query.walk method).run metadata.store).outcome =
      .ok ((added.filter (·.declaration.method = method)).flatMap fun s =>
        s.handles.localVariables.zip s.declaration.localVariables) := by
  have hscopes : ((Query.ask (.localScopes method)).run metadata.store).outcome =
      .ok ((added.filter (·.declaration.method = method)).map (·.handles.scope)) :=
    congrArg Except.ok (h.methodScopes method)
  rw [Query.walk, Query.outcome_bind_ok hscopes,
    h.scopeRows_outcome (List.filter_subset_self added)]

theorem localVariables_outcome (h : Laid metadata added) (method : MethodHandle) :
    ((Query.localVariables method).run metadata.store).outcome =
      .ok (((added.map (·.declaration)).filter (·.method = method)).flatMap (·.slots)) := by
  have hsubset : added.filter (·.declaration.method = method) ⊆ added :=
    List.filter_subset_self added
  rw [Query.localVariables, Query.outcome_bind_ok (h.walk_outcome method)]
  refine congrArg Except.ok ?_
  rw [List.map_flatMap, List.filter_map, List.flatMap_map]
  refine List.flatMap_congr fun s hs => ?_
  have hlength := h.length_localVariables (hsubset hs)
  have hrows : ((s.handles.localVariables.zip s.declaration.localVariables).map Prod.snd) =
      s.declaration.localVariables := List.map_snd_zip (Nat.le_of_eq hlength.symm)
  rw [ScopeDeclaration.slots]
  conv_rhs => rw [← hrows, List.map_map]
  rfl

end Laid

/-! ## What is found of the scopes -/

/-- What is found in the end of the scopes that some steps add, and of their variables. -/
structure ScopesKept (steps : List BuildStep) : Prop where
  /-- Every step that is to add a scope adds it. -/
  declarations : (BuildStep.addedScopes steps).map (·.declaration) = BuildStep.declarations steps
  scope_rids : (BuildStep.addedScopes steps).map (·.handles.scope.rid) =
    List.range' 1 ((build steps).rowCount .localScope)
  scopeVariables : ∀ s ∈ BuildStep.addedScopes steps,
    (build steps).store (.localVariables s.handles.scope) = .ok s.handles.localVariables
  localVariable : ∀ s ∈ BuildStep.addedScopes steps,
    List.Forall₂ (fun handle row => (build steps).store (.localVariable handle) = .ok row)
      s.handles.localVariables s.declaration.localVariables
  /-- The variables of all scopes, one scope behind the other, are the whole variable table. -/
  runs : ∃ runs : List (List LocalVariableHandle),
    (build steps).scopes.handles.map (build steps).scopeVariables = runs.map .ok ∧
      runs.flatten.map Handle.rid = List.range' 1 ((build steps).rowCount .localVariable)
  existsUnique_scope : ∀ handle : LocalVariableHandle,
    handle.rid ≤ (build steps).rowCount .localVariable →
      ∃! scope, ∃ handles,
        (build steps).store (.localVariables scope) = .ok handles ∧ handle ∈ handles
  not_malformed : ∀ scope reason,
    (build steps).store (.localVariables scope) ≠ .error (.malformed reason)
  invalidHandle : ∀ scope : LocalScopeHandle, (build steps).rowCount .localScope < scope.rid →
    (build steps).store (.localVariables scope) = .error (.invalidHandle scope.token)
  localScopes : ∀ method, (build steps).store (.localScopes method) =
    .ok (((BuildStep.addedScopes steps).filter (·.declaration.method = method)).map
      (·.handles.scope))
  /-- Any provider that reads these tables gives the variables of a method in the order in which
  they were declared, and nothing of the scopes of other methods in between. -/
  answer : ∀ (provider : Provider) method, provider.store = some (build steps).store →
    (provider.answer (.localVariables method)).1.outcome =
      .ok (((BuildStep.declarations steps).filter (·.method = method)).flatMap (·.slots))

/-- **Scopes partition the variables.** -/
theorem scopesKept_of_fit {steps : List BuildStep}
    (hfit : ScopeDeclaration.Fit (BuildStep.declarations steps)) : ScopesKept steps := by
  obtain ⟨hdeclared, hlaid⟩ := laid_build hfit
  constructor
  case declarations => exact hdeclared
  case scope_rids =>
    have hrids := (build steps).scopes.map_rid_handles
    rwa [hlaid.scopes, List.map_map] at hrids
  case scopeVariables => exact fun s hs => hlaid.scopeVariables hs
  case localVariable =>
    exact fun s hs => (hlaid.declared s hs).imp fun _ _ hrow => resolve_of_get? hrow
  case runs => exact hlaid.exists_runs
  case existsUnique_scope => exact fun handle hrid => hlaid.existsUnique_scope hrid
  case not_malformed => exact hlaid.not_malformed
  case invalidHandle => exact fun scope hrid => scopeVariables_of_size_lt hrid
  case localScopes => exact fun method => congrArg Except.ok (hlaid.methodScopes method)
  case answer =>
    intro provider method hstore
    rw [Provider.answer_of_not_cached rfl, hstore]
    have houtcome := hlaid.localVariables_outcome method
    rwa [hdeclared] at houtcome

/-- Scopes of two methods that take turns, one of them without variables, and other steps. -/
def interleavedSteps : List BuildStep :=
  let other : MethodHandle := ⟨5, by decide⟩
  [.scope .first 0 20 [⟨.none, 0, "a"⟩, ⟨.none, 1, "b"⟩], .document "a.cs",
    .scope other 0 8 [⟨.none, 0, "c"⟩], .scope .first 2 4 [], .method other none [],
    .scope .first 4 2 [⟨⟨VariableAttributes.debuggerHiddenBit⟩, 0, "d"⟩]]

theorem scopesKept_interleaved :
    ScopeDeclaration.Fit (BuildStep.declarations interleavedSteps) ∧
      ScopesKept interleavedSteps := by
  have hfit : ScopeDeclaration.Fit (BuildStep.declarations interleavedSteps) :=
    ⟨by decide, by decide, by decide⟩
  exact ⟨hfit, scopesKept_of_fit hfit⟩

end Metadata

end PortablePdb
