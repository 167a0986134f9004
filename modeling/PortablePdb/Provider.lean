import Std.Data.TreeMap
import PortablePdb.Provider.Config
import PortablePdb.Query.SourcePoints
import PortablePdb.Query.TypeFacts

/-!
# Debug information providers

A provider answers requests from a store, or has no store and finds nothing. If its configuration
says so it keeps what it found out about the type of a slot, and answers from that whenever the
slot is asked for again, even if nothing was found or the store has changed. Errors are not kept.

* `answer_of_not_cached`: a request whose answer is not kept is answered from the store alone, and
  leaves the provider as it is.
-/

namespace PortablePdb

/-- A slot of a method's frame. -/
structure Slot where
  method : MethodHandle
  index : Nat
  deriving DecidableEq

namespace Slot

protected def compare : Slot → Slot → Ordering :=
  compareLex (compareOn Slot.method) (compareOn Slot.index)

instance : Std.TransCmp Slot.compare :=
  inferInstanceAs (Std.TransCmp (compareLex _ _))

instance : Std.LawfulEqCmp Slot.compare where
  eq_of_compare {a b} h := by
    obtain ⟨hmethod, hindex⟩ := compareLex_eq_eq.1 h
    obtain ⟨_, _⟩ := a
    obtain ⟨_, _⟩ := b
    simp only [compareOn] at hmethod hindex
    rw [Std.LawfulEqOrd.eq_of_compare hmethod, Std.LawfulEqOrd.eq_of_compare hindex]

end Slot

/-- What is known of the types of some slots. A slot about which nothing is told is known too. -/
abbrev TypeCache := Std.TreeMap Slot (Option ExtraTypeInfo) Slot.compare

/-! ## Requests -/

/-- A request to a provider. -/
inductive Request
  | sourcePoints (method : MethodHandle)
  | localVariables (method : MethodHandle)
  | variableName (method : MethodHandle) (index : Nat)
  | findVariable (method : MethodHandle) (index : Nat)
  | typeFacts (method : MethodHandle) (index : Nat)
  deriving DecidableEq

namespace Request

/-- What the answer to a request consists of. -/
abbrev Answer : Request → Type
  | sourcePoints _ => List SourcePoint
  | localVariables _ => List NamedSlot
  | variableName .. => Option String
  | findVariable .. => Option LocalVariableHandle
  | typeFacts .. => Option ExtraTypeInfo

def query : (request : Request) → Query request.Answer
  | sourcePoints method => Query.sourcePoints method
  | localVariables method => Query.localVariables method
  | variableName method index => Query.variableName method index
  | findVariable method index => Query.findVariable method index
  | typeFacts method index => Query.typeFacts method index

/-- The answer to a request where there is no debug information. -/
def nothing : (request : Request) → request.Answer
  | sourcePoints _ => []
  | localVariables _ => []
  | variableName .. => none
  | findVariable .. => none
  | typeFacts .. => none

/-- The operation that reports missing debug information, if the request is for one. -/
def operation? : Request → Option Operation
  | sourcePoints _ => some .sequencePoints
  | localVariables _ => some .localVariables
  | variableName .. => some .variableName
  | findVariable .. => none
  | typeFacts .. => none

def runOn (request : Request) : Option Store → Run request.Answer
  | some store => request.query.run store
  | none => ⟨.ok request.nothing, [], (request.operation?.map Event.unavailableFor).toList⟩

end Request

/-! ## Providers -/

/-- A provider of debug information. -/
structure Provider where
  config : ProviderConfig
  store : Option Store
  cache : TypeCache

namespace Provider

def ofStore (store : Store) (config : ProviderConfig) : Provider := ⟨config, some store, ∅⟩

/-- A provider without debug information, and the event that reports this. -/
def withoutStore (config : ProviderConfig) : Provider × Event :=
  (⟨config, none, ∅⟩, .unavailable config.file)

def hasStore (provider : Provider) : Bool := provider.store.isSome

def withStore (provider : Provider) (store : Option Store) : Provider :=
  { provider with store := store }

/-- The slot whose type a request asks for, if answers about types are kept. -/
def cachedSlot? (provider : Provider) : Request → Option Slot
  | .typeFacts method index => if provider.config.keepsTypeInfo then some ⟨method, index⟩ else none
  | _ => none

/-- Answers a request about the type of a slot from what is kept, or else finds the answer and
keeps it. -/
def answerCached (provider : Provider) (slot : Slot) : Run (Option ExtraTypeInfo) × Provider :=
  match provider.cache[slot]? with
  | some info => (⟨.ok info, [], [.cacheHit slot.method slot.index]⟩, provider)
  | none =>
    let run := (Request.typeFacts slot.method slot.index).runOn provider.store
    match run.outcome with
    | .ok info => (run, { provider with cache := provider.cache.insert slot info })
    | .error _ => (run, provider)

/-- Answers a request, and gives the provider for the next one. -/
def answer (provider : Provider) (request : Request) : Run request.Answer × Provider :=
  match request with
  | .typeFacts method index =>
    if provider.config.keepsTypeInfo then provider.answerCached ⟨method, index⟩
    else ((Request.typeFacts method index).runOn provider.store, provider)
  | request => (request.runOn provider.store, provider)

/-- A request together with the store that is in force when it is made. -/
structure Visit where
  store : Option Store
  request : Request

/-- What a visit gave. -/
structure Reply where
  request : Request
  run : Run request.Answer

def answerAll : Provider → List Visit → List Reply
  | _, [] => []
  | provider, visit :: more =>
    let (run, next) := (provider.withStore visit.store).answer visit.request
    ⟨visit.request, run⟩ :: next.answerAll more

/-- What is not kept is asked for, and the provider stays as it is. -/
theorem answer_of_not_cached {provider : Provider} {request : Request}
    (h : provider.cachedSlot? request = none) :
    provider.answer request = (request.runOn provider.store, provider) := by
  cases request with
  | typeFacts method index =>
    simp only [cachedSlot?] at h
    split at h
    · cases h
    · rename_i hcache
      simp [answer, hcache]
  | _ => rfl

end Provider

end PortablePdb
