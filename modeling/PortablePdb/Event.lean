import PortablePdb.TypeFact

/-!
# Log events

What building tables and answering queries reports beside its results. An event is a cause; the
line that a log shows for it is given by `Event.level`, `Event.message` and `Event.fields`.
-/

namespace PortablePdb

/-- How important an event is. -/
inductive Level
  | warn
  | debug
  | trace
  deriving DecidableEq

def Level.name : Level → String
  | warn => "WARN"
  | debug => "DEBUG"
  | trace => "TRACE"

/-- A detail of an event. -/
inductive Field
  | text (value : String)
  | number (value : Nat)
  deriving DecidableEq

/-- The operations that report missing debug information. -/
inductive Operation
  | sequencePoints
  | localVariables
  | variableName
  deriving DecidableEq

def Operation.name : Operation → String
  | sequencePoints => "sequence_points"
  | localVariables => "variables"
  | variableName => "try_get_name"

/-- How many rows each table has. -/
structure TableCounts where
  documents : Nat
  methods : Nat
  scopes : Nat
  localVariables : Nat
  customDebugInformation : Nat
  deriving DecidableEq

/-- An event. -/
inductive Event
  | built (counts : TableCounts)
  | unavailable (file : Option String)
  | unavailableFor (operation : Operation)
  | extractedPoints (method : MethodHandle) (count : Nat)
  | noVariable (method : MethodHandle) (index : Nat)
  | recordWithoutKind (record : CustomDebugHandle)
  | unrelatedRecord (record : CustomDebugHandle) (kind : CustomDebug.Kind)
  | unterminatedName (remaining : Nat)
  | decodedFact (fact : TypeFact) (handle : LocalVariableHandle)
  | repeatedFact (fact : TypeFact) (record : CustomDebugHandle)
  | cacheHit (method : MethodHandle) (index : Nat)
  deriving DecidableEq

def TypeFact.caption : TypeFact → String
  | tupleElementNames => "tuple element names"
  | dynamicFlags => "dynamic local flags"

namespace Event

def level : Event → Level
  | unavailable _ => .warn
  | built _ => .debug
  | decodedFact .. => .debug
  | _ => .trace

def message : Event → String
  | built _ => "built portable pdb metadata"
  | unavailable _ => "debug metadata unavailable"
  | unavailableFor _ => "debug metadata unavailable"
  | extractedPoints .. => "extracted sequence points"
  | noVariable .. => "no local variable declared for slot"
  | recordWithoutKind _ => "skipping record without kind"
  | unrelatedRecord .. => "skipping unrelated record"
  | unterminatedName _ => "ignoring unterminated tuple element name"
  | decodedFact fact _ => s!"decoded {fact.caption}"
  | repeatedFact fact _ => s!"ignoring repeated {fact.caption}"
  | cacheHit .. => "extra type info cache hit"

def fields : Event → List (String × Field)
  | built counts =>
    [("documents", .number counts.documents), ("methods", .number counts.methods),
      ("scopes", .number counts.scopes), ("variables", .number counts.localVariables),
      ("custom_debug_information", .number counts.customDebugInformation)]
  | unavailable file => (file.map fun name => ("pdb_file_name", .text name)).toList
  | unavailableFor operation => [("operation", .text operation.name)]
  | extractedPoints method count => [("method", .text method.render), ("points", .number count)]
  | noVariable method index => [("method", .text method.render), ("index", .number index)]
  | recordWithoutKind record => [("record", .text record.render)]
  | unrelatedRecord record kind => [("record", .text record.render), ("kind", .text kind.name)]
  | unterminatedName remaining => [("remaining", .number remaining)]
  | decodedFact _ handle => [("variable", .text handle.render)]
  | repeatedFact _ record => [("record", .text record.render)]
  | cacheHit method index => [("method", .text method.render), ("index", .number index)]

end Event

end PortablePdb
