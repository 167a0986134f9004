import PortablePdb.Token

/-!
# Handles

A handle is a reference to a row of one particular table. It holds a row id that can occur, so
unlike a token it is never nil and never points into another table.

* `ofRid?_eq_some_iff`: which numbers are row ids.
* `ofToken?_token`, `token_of_ofToken?`: a handle and its token determine each other.
-/

namespace PortablePdb

/-- A reference to a row of the given table. -/
structure Handle (table : TableId) where
  rid : Nat
  rid_valid : 0 < rid ∧ rid < rowLimit
  deriving DecidableEq

abbrev MethodHandle := Handle .methodDef
abbrev DocumentHandle := Handle .document
abbrev LocalScopeHandle := Handle .localScope
abbrev LocalVariableHandle := Handle .localVariable
abbrev CustomDebugHandle := Handle .customDebugInformation

namespace Handle

variable {table : TableId}

/-- Two handles into one table are the same if their row ids are. -/
@[ext] theorem ext {a b : Handle table} (h : a.rid = b.rid) : a = b := by
  cases a; cases b; simp_all

def first : Handle table := ⟨1, by decide⟩

/-- The handle of a row id, unless the number cannot be one. -/
def ofRid? (rid : Nat) : Option (Handle table) :=
  if h : 0 < rid ∧ rid < rowLimit then some ⟨rid, h⟩ else none

def token (handle : Handle table) : Token := ⟨table.code, handle.rid, handle.rid_valid.2⟩

/-- The handle of the row a token names, if it names one of this table. -/
def ofToken? (token : Token) : Option (Handle table) :=
  if token.table = table.code then ofRid? token.row else none

def render (handle : Handle table) : String := s!"{table.name}#{handle.rid}"

protected def compare (a b : Handle table) : Ordering := compareOn Handle.rid a b

instance : Ord (Handle table) := ⟨Handle.compare⟩

instance : Std.TransOrd (Handle table) :=
  inferInstanceAs (Std.TransCmp (compareOn Handle.rid))

instance : Std.LawfulEqOrd (Handle table) where
  eq_of_compare h := ext (Nat.compare_eq_eq.1 h)

@[simp] theorem ofRid?_rid (handle : Handle table) : ofRid? handle.rid = some handle := by
  simp [ofRid?, handle.rid_valid]

theorem ofRid?_eq_some_iff {rid : Nat} {handle : Handle table} :
    ofRid? rid = some handle ↔ handle.rid = rid := by
  constructor
  · intro h
    unfold ofRid? at h
    split at h
    · cases h; rfl
    · cases h
  · rintro rfl
    exact ofRid?_rid handle

/-- Row ids start at 1 and have 24 bits. -/
theorem isSome_ofRid? {rid : Nat} :
    (ofRid? rid : Option (Handle table)).isSome = true ↔ 0 < rid ∧ rid < rowLimit := by
  unfold ofRid?
  split <;> simp_all

@[simp] theorem ofToken?_token (handle : Handle table) : ofToken? handle.token = some handle := by
  simp [ofToken?, token]

/-- A token that names a row of a table is the token of that row. -/
theorem token_of_ofToken? {token : Token} {handle : Handle table}
    (h : ofToken? token = some handle) : handle.token = token := by
  unfold ofToken? at h
  split at h
  · rename_i htable
    have hrid := ofRid?_eq_some_iff.1 h
    obtain ⟨_, _, _⟩ := token
    simp_all [Handle.token]
  · cases h

/-- A token of the table that has the row id of a handle is the token of the handle. -/
theorem token_eq_of {handle : Handle table} {token : Token} (htable : token.table = table.code)
    (hrow : token.row = handle.rid) : token = handle.token := by
  obtain ⟨_, _, _⟩ := token
  simp_all [Handle.token]

theorem token_injective {a b : Handle table} (h : a.token = b.token) : a = b :=
  ext (congrArg Token.row h)

end Handle

end PortablePdb
