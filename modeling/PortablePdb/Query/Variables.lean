import PortablePdb.Query

/-!
# Local variables of a method

Walks through the scopes of a method, and through the variables of each, in the order in which
the store gives them: either to the end, or to the first variable of a slot.

* `localVariables`: the names of all variables.
* `findVariable`, `variableName`: the first variable of a slot.
-/

namespace PortablePdb

/-- The name of a slot of a method's frame. -/
structure NamedSlot where
  index : Nat
  name : String
  deriving DecidableEq

namespace Query

def variableRows : List LocalVariableHandle → Query (List (LocalVariableHandle × LocalVariable))
  | [] => pure []
  | handle :: more => do
    let row ← ask (.localVariable handle)
    let rest ← variableRows more
    pure ((handle, row) :: rest)

def scopeRows : List LocalScopeHandle → Query (List (LocalVariableHandle × LocalVariable))
  | [] => pure []
  | scope :: more => do
    let handles ← ask (.localVariables scope)
    let rows ← variableRows handles
    let rest ← scopeRows more
    pure (rows ++ rest)

def walk (method : MethodHandle) : Query (List (LocalVariableHandle × LocalVariable)) := do
  let scopes ← ask (.localScopes method)
  scopeRows scopes

def localVariables (method : MethodHandle) : Query (List NamedSlot) := do
  let rows ← walk method
  pure (rows.map fun (_, row) => ⟨row.index, row.name⟩)

def firstVariable (index : Nat) :
    List LocalVariableHandle → Query (Option (LocalVariableHandle × LocalVariable))
  | [] => pure none
  | handle :: more => do
    let row ← ask (.localVariable handle)
    if row.index = index then pure (some (handle, row)) else firstVariable index more

def firstInScopes (index : Nat) :
    List LocalScopeHandle → Query (Option (LocalVariableHandle × LocalVariable))
  | [] => pure none
  | scope :: more => do
    let handles ← ask (.localVariables scope)
    match ← firstVariable index handles with
    | some found => pure (some found)
    | none => firstInScopes index more

/-- The first variable of a method that has a slot, with its row. -/
def firstOfSlot (method : MethodHandle) (index : Nat) :
    Query (Option (LocalVariableHandle × LocalVariable)) := do
  let scopes ← ask (.localScopes method)
  let found ← firstInScopes index scopes
  if found.isNone then emit (.noVariable method index)
  pure found

def findVariable (method : MethodHandle) (index : Nat) : Query (Option LocalVariableHandle) := do
  let found ← firstOfSlot method index
  pure (found.map fun (handle, _) => handle)

def variableName (method : MethodHandle) (index : Nat) : Query (Option String) := do
  let found ← firstOfSlot method index
  pure (found.map fun (_, row) => row.name)

end Query

end PortablePdb
