import PortablePdb.CustomDebug.Record
import PortablePdb.Error
import PortablePdb.Locals
import PortablePdb.SequencePoint

/-!
# Stores of debug information

A store answers seven kinds of lookups, each with rows or with an error. Everything that queries
learn about a module comes from lookups, so a store stands for a module, whether its tables are
in memory or anywhere else.
-/

namespace PortablePdb

/-- A question to a store. -/
inductive Lookup
  | sequencePoints (method : MethodHandle)
  /-- The scopes of a method, in the order of their rows. -/
  | localScopes (method : MethodHandle)
  /-- The variables of a scope, in the order of their rows. -/
  | localVariables (scope : LocalScopeHandle)
  | localVariable (handle : LocalVariableHandle)
  | documentName (document : DocumentHandle)
  /-- All custom debug records, in the order of their rows. -/
  | customDebugInformation
  | customDebugRecord (handle : CustomDebugHandle)
  deriving DecidableEq

/-- What the answer to a lookup consists of. -/
abbrev Lookup.Answer : Lookup → Type
  | .sequencePoints _ => List SequencePoint
  | .localScopes _ => List LocalScopeHandle
  | .localVariables _ => List LocalVariableHandle
  | .localVariable _ => LocalVariable
  | .documentName _ => String
  | .customDebugInformation => List CustomDebugHandle
  | .customDebugRecord _ => CustomDebug.Record

/-- A source of debug information. -/
abbrev Store := (lookup : Lookup) → Except DebugError lookup.Answer

end PortablePdb
