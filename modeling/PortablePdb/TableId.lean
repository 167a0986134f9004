/-!
# Tables

The metadata tables that debug information refers to, with the byte that stands for each of them
at the top of a token.

* `ofCode?_code`: every table is found again from its byte.
* `code_of_ofCode?`: a byte names at most the table whose byte it is.
-/

namespace PortablePdb

/-- A metadata table that debug information reads or points into. -/
inductive TableId
  | module
  | typeDef
  | methodDef
  | document
  | methodDebugInformation
  | localScope
  | localVariable
  | localConstant
  | importScope
  | stateMachineMethod
  | customDebugInformation
  deriving DecidableEq, Repr

namespace TableId

/-- All tables, in the order of their bytes. -/
def all : List TableId :=
  [module, typeDef, methodDef, document, methodDebugInformation, localScope, localVariable,
    localConstant, importScope, stateMachineMethod, customDebugInformation]

def code : TableId → UInt8
  | module => 0x00
  | typeDef => 0x02
  | methodDef => 0x06
  | document => 0x30
  | methodDebugInformation => 0x31
  | localScope => 0x32
  | localVariable => 0x33
  | localConstant => 0x34
  | importScope => 0x35
  | stateMachineMethod => 0x36
  | customDebugInformation => 0x37

/-- The table a byte stands for, if it is one of the known tables. -/
def ofCode? (byte : UInt8) : Option TableId := all.find? (·.code == byte)

def name : TableId → String
  | module => "Module"
  | typeDef => "TypeDef"
  | methodDef => "MethodDef"
  | document => "Document"
  | methodDebugInformation => "MethodDebugInformation"
  | localScope => "LocalScope"
  | localVariable => "LocalVariable"
  | localConstant => "LocalConstant"
  | importScope => "ImportScope"
  | stateMachineMethod => "StateMachineMethod"
  | customDebugInformation => "CustomDebugInformation"

def ofName? (text : String) : Option TableId := all.find? (·.name == text)

/-- No two tables share a byte. -/
theorem ofCode?_code (table : TableId) : ofCode? table.code = some table := by
  cases table <;> decide

theorem code_of_ofCode? {byte : UInt8} {table : TableId} (h : ofCode? byte = some table) :
    table.code = byte := by
  simpa using List.find?_some h

end TableId

end PortablePdb
