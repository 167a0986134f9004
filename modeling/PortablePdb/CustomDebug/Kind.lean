import PortablePdb.Guid

/-!
# Kinds of custom debug information

The identifier of a custom debug record tells what its value holds. Some identifiers are well
known; a record with any other is kept as it is. There are two tables of the well-known ones: one
finds the kind of an identifier (`Kind.ofGuid`), the other the identifier of a kind
(`WellKnown.guid`). They are inverse to each other.

* `guid_ofGuid`: finding the kind of an identifier loses nothing.
* `ofGuid_known`: a well-known identifier is never taken for an unknown one.
-/

namespace PortablePdb.CustomDebug

/-! ## Well-known identifiers -/

namespace Identifier

@[match_pattern] def stateMachineHoistedLocalScopes : Guid :=
  ⟨0x6DA9A61E, 0xF8C7, 0x4874, 0xBE6268BC5630DF71⟩

@[match_pattern] def dynamicLocalVariables : Guid :=
  ⟨0x83C563C4, 0xB4F3, 0x47D5, 0xB824BA5441477EA8⟩

@[match_pattern] def defaultNamespace : Guid := ⟨0x58B2EAB6, 0x209F, 0x4E4E, 0xA22CB2D0F910C782⟩

@[match_pattern] def encLocalSlotMap : Guid := ⟨0x755F52A8, 0x91C5, 0x45BE, 0xB4B8209571E552BD⟩

@[match_pattern] def encLambdaAndClosureMap : Guid :=
  ⟨0xA643004C, 0x0240, 0x496F, 0xA78330D64F4979DE⟩

@[match_pattern] def tupleElementNames : Guid := ⟨0xED9FDF71, 0x8879, 0x4747, 0x8ED3FE5EDE3CE710⟩

@[match_pattern] def embeddedSource : Guid := ⟨0x0E8A571B, 0x6926, 0x466E, 0xB4AD8AB04611F5FE⟩

@[match_pattern] def sourceLink : Guid := ⟨0xCC110556, 0xA091, 0x4D38, 0x9FEC25AB9A351A6A⟩

@[match_pattern] def compilationMetadataReferences : Guid :=
  ⟨0x7E4D4708, 0x096E, 0x4C5C, 0xAEDACB10BA6A740D⟩

@[match_pattern] def compilationOptions : Guid := ⟨0xB5FEEC05, 0x8CD0, 0x4A83, 0x96DA466284BB4BD8⟩

end Identifier

/-- The well-known kinds of custom debug information. -/
inductive WellKnown
  | stateMachineHoistedLocalScopes
  | dynamicLocalVariables
  | defaultNamespace
  | encLocalSlotMap
  | encLambdaAndClosureMap
  | tupleElementNames
  | embeddedSource
  | sourceLink
  | compilationMetadataReferences
  | compilationOptions
  deriving DecidableEq

namespace WellKnown

def guid : WellKnown → Guid
  | stateMachineHoistedLocalScopes => Identifier.stateMachineHoistedLocalScopes
  | dynamicLocalVariables => Identifier.dynamicLocalVariables
  | defaultNamespace => Identifier.defaultNamespace
  | encLocalSlotMap => Identifier.encLocalSlotMap
  | encLambdaAndClosureMap => Identifier.encLambdaAndClosureMap
  | tupleElementNames => Identifier.tupleElementNames
  | embeddedSource => Identifier.embeddedSource
  | sourceLink => Identifier.sourceLink
  | compilationMetadataReferences => Identifier.compilationMetadataReferences
  | compilationOptions => Identifier.compilationOptions

def name : WellKnown → String
  | stateMachineHoistedLocalScopes => "StateMachineHoistedLocalScopes"
  | dynamicLocalVariables => "DynamicLocalVariables"
  | defaultNamespace => "DefaultNamespace"
  | encLocalSlotMap => "EncLocalSlotMap"
  | encLambdaAndClosureMap => "EncLambdaAndClosureMap"
  | tupleElementNames => "TupleElementNames"
  | embeddedSource => "EmbeddedSource"
  | sourceLink => "SourceLink"
  | compilationMetadataReferences => "CompilationMetadataReferences"
  | compilationOptions => "CompilationOptions"

end WellKnown

/-- A kind of custom debug information. -/
inductive Kind
  | known (kind : WellKnown)
  | unknown (guid : Guid)
  deriving DecidableEq

namespace Kind

/-- The kind of an identifier. One that is not well known is kept. -/
def ofGuid (guid : Guid) : Kind :=
  match guid with
  | Identifier.stateMachineHoistedLocalScopes => known .stateMachineHoistedLocalScopes
  | Identifier.dynamicLocalVariables => known .dynamicLocalVariables
  | Identifier.defaultNamespace => known .defaultNamespace
  | Identifier.encLocalSlotMap => known .encLocalSlotMap
  | Identifier.encLambdaAndClosureMap => known .encLambdaAndClosureMap
  | Identifier.tupleElementNames => known .tupleElementNames
  | Identifier.embeddedSource => known .embeddedSource
  | Identifier.sourceLink => known .sourceLink
  | Identifier.compilationMetadataReferences => known .compilationMetadataReferences
  | Identifier.compilationOptions => known .compilationOptions
  | other => unknown other

def guid : Kind → Guid
  | known kind => kind.guid
  | unknown guid => guid

/-- The name of a kind; kinds that are not well known share one. -/
def name : Kind → String
  | known kind => kind.name
  | unknown _ => "Unknown"

/-- The kind that is found for an identifier has this identifier: each arm finds the kind whose
identifier it is for, and what no arm is for is kept. -/
theorem guid_ofGuid (guid : Guid) : (ofGuid guid).guid = guid := by
  unfold ofGuid
  split
  all_goals rfl

/-- Conversely, each well-known kind is found for its own identifier, so no arm is shadowed by one
before it. -/
theorem ofGuid_known (kind : WellKnown) : ofGuid kind.guid = known kind := by
  cases kind
  all_goals rfl

theorem ofGuid_eq_known_iff {guid : Guid} {kind : WellKnown} :
    ofGuid guid = known kind ↔ guid = kind.guid := by
  constructor
  · intro h
    rw [← guid_ofGuid guid, h]
    rfl
  · rintro rfl
    exact ofGuid_known kind

end Kind

end PortablePdb.CustomDebug
