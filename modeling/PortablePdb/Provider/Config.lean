/-!
# Configuration of a provider

Where the debug information was loaded from, and whether answers about types are kept.

* `ProviderConfig`: by default the information is part of the module and nothing is kept.
-/

namespace PortablePdb

/-- How a provider is set up. -/
structure ProviderConfig where
  /-- The file that the debug information was loaded from; absent if it is part of the module. -/
  file : Option String := none
  keepsTypeInfo : Bool := false
  deriving DecidableEq

namespace ProviderConfig

def withFile (config : ProviderConfig) (file : String) : ProviderConfig :=
  { config with file := some file }

/-- The configuration that does or does not keep answers about types. -/
def withTypeInfoCache (config : ProviderConfig) (enable : Bool) : ProviderConfig :=
  { config with keepsTypeInfo := enable }

def isEmbedded (config : ProviderConfig) : Bool := config.file.isNone

def description (config : ProviderConfig) : String :=
  match config.file with
  | some file => "Loaded from portable PDB: " ++ file
  | none => "Embedded in this assembly"

end ProviderConfig

end PortablePdb
