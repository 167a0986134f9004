import PortablePdb.Query.Variables

/-!
# Facts about the type of a slot

Goes through the custom debug records, in the order in which the store gives them, and collects
the facts that records attached to the first variable of a slot tell about its type. It stops as
soon as both facts are known. A value that cannot be decoded would end the query with its error.

* `typeFacts`: the query.
-/

namespace PortablePdb

/-- Reads what a value says of a fact, and reports a name that is not ended. -/
def TypeFact.decoder (value : Bytes) :
    (fact : TypeFact) → ExtraTypeInfo.Decoder Event fact.Value
  | tupleElementNames => fun _ =>
    match TupleNames.readNames (.start value) with
    | (.error e, _) => ⟨.error e, []⟩
    | (.ok names, behind) =>
      ⟨.ok names, if behind.hasMore then [.unterminatedName behind.remaining] else []⟩
  | dynamicFlags => fun _ => ⟨(DynamicFlags.readFlags (.start value)).1, []⟩

namespace Query

/-- Goes on with the outcome of an offer, and reports what running its decoder left behind. -/
def settle (response : ExtraTypeInfo.Response Event) : Query Bool :=
  fun _ => ⟨response.outcome, [], response.trace⟩

/-- Takes a fact from a record that holds one, unless it is known already. -/
def learn (target : LocalVariableHandle) (handle : CustomDebugHandle) (fact : TypeFact)
    (value : Bytes) (info : ExtraTypeInfo) : Query ExtraTypeInfo := do
  let response := info.offer ⟨fact, fact.decoder value⟩
  let taken ← settle response
  emit (if taken then .decodedFact fact target else .repeatedFact fact handle)
  pure response.info

/-- Takes what a record tells about a variable. A record tells something if it is attached to a
variable, namely to this one, has a value, and is of a kind that holds a fact. -/
def inspect (target : LocalVariableHandle) (handle : CustomDebugHandle)
    (record : CustomDebug.Record) (info : ExtraTypeInfo) : Query ExtraTypeInfo :=
  if record.parentTable? = some .localVariable ∧ record.parent = target.token ∧
      record.value ≠ [] then
    match record.kind? with
    | none => do
      emit (.recordWithoutKind handle)
      pure info
    | some (.unknown guid) => do
      emit (.unrelatedRecord handle (.unknown guid))
      pure info
    | some (.known kind) =>
      match TypeFact.ofKind? kind with
      | some fact => learn target handle fact record.value info
      | none => do
        emit (.unrelatedRecord handle (.known kind))
        pure info
  else pure info

/-- Takes what each record tells in turn, until both facts are known. -/
def scanRecords (target : LocalVariableHandle) :
    List CustomDebugHandle → ExtraTypeInfo → Query ExtraTypeInfo
  | [], info => pure info
  | handle :: more, info => do
    let record ← ask (.customDebugRecord handle)
    let info ← inspect target handle record info
    if info.isComplete then pure info else scanRecords target more info

/-- What all records tell about the type of a variable, if they tell anything. -/
def collect (target : LocalVariableHandle) : Query (Option ExtraTypeInfo) := do
  let handles ← ask .customDebugInformation
  let info ← scanRecords target handles .empty
  pure (if info.isEmpty then none else some info)

/-- What records tell about the type of the first variable of a slot, if there is one. -/
def typeFacts (method : MethodHandle) (index : Nat) : Query (Option ExtraTypeInfo) := do
  match ← findVariable method index with
  | none => pure none
  | some target => collect target

end Query

end PortablePdb
