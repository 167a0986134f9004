import PortablePdb.CustomDebug.DynamicFlags
import PortablePdb.CustomDebug.Kind
import PortablePdb.CustomDebug.TupleNames
import PortablePdb.Error

/-!
# Facts about the type of a local variable

Two facts about a variable's type are not part of its signature and are kept in custom debug
records: the names of tuple elements, and which parts are dynamic. Each is learnt at most once: the
first value wins, and later ones are not even decoded.

* `get_set_self`, `get_set_of_ne`: setting a fact changes that fact alone.
* `offer_of_some`: for a known fact no decoder is run.
* `get_offer_self`, `get_offer_of_ne`: the first value wins.
-/

namespace PortablePdb

/-- A fact about a type. -/
inductive TypeFact
  | tupleElementNames
  | dynamicFlags
  deriving DecidableEq

namespace TypeFact

/-- What a fact says. -/
abbrev Value : TypeFact → Type
  | tupleElementNames => List TupleNames.Name
  | dynamicFlags => List Bool

def ofKind? : CustomDebug.WellKnown → Option TypeFact
  | .tupleElementNames => some tupleElementNames
  | .dynamicLocalVariables => some dynamicFlags
  | _ => none

def kind : TypeFact → CustomDebug.WellKnown
  | tupleElementNames => .tupleElementNames
  | dynamicFlags => .dynamicLocalVariables

/-- A kind holds a fact if it is the kind of this fact. -/
theorem ofKind?_eq_some_iff {kind : CustomDebug.WellKnown} {fact : TypeFact} :
    ofKind? kind = some fact ↔ kind = fact.kind := by
  cases kind <;> cases fact <;> decide

theorem kind_injective {fact other : TypeFact} (h : fact.kind = other.kind) : fact = other := by
  have hfact := ofKind?_eq_some_iff.2 h
  rw [ofKind?_eq_some_iff.2 rfl] at hfact
  exact Option.some.inj hfact

end TypeFact

/-- What is known about the type of a variable beside its signature. -/
structure ExtraTypeInfo where
  tupleElementNames : Option (List TupleNames.Name)
  dynamicFlags : Option (List Bool)
  deriving DecidableEq

namespace ExtraTypeInfo

def empty : ExtraTypeInfo := ⟨none, none⟩

def get (info : ExtraTypeInfo) : (fact : TypeFact) → Option fact.Value
  | .tupleElementNames => info.tupleElementNames
  | .dynamicFlags => info.dynamicFlags

def set (info : ExtraTypeInfo) : (fact : TypeFact) → fact.Value → ExtraTypeInfo
  | .tupleElementNames, names => { info with tupleElementNames := some names }
  | .dynamicFlags, flags => { info with dynamicFlags := some flags }

def isComplete (info : ExtraTypeInfo) : Bool :=
  info.tupleElementNames.isSome && info.dynamicFlags.isSome

def isEmpty (info : ExtraTypeInfo) : Bool :=
  info.tupleElementNames.isNone && info.dynamicFlags.isNone

/-- What running a decoder gives, and what the run leaves behind. -/
structure Decoding (τ α : Type) where
  outcome : Except DebugError α
  trace : List τ

/-- A computation that decodes a value when it is run. -/
abbrev Decoder (τ α : Type) := Unit → Decoding τ α

/-- A fact with a decoder for its value, which may fail. -/
structure Offer (τ : Type) where
  fact : TypeFact
  decoder : Decoder τ fact.Value

/-- What came of an offer. -/
structure Response (τ : Type) where
  outcome : Except DebugError Bool
  trace : List τ
  info : ExtraTypeInfo

variable {τ : Type}

/-- Sets a fact that is not known yet to what the decoder gives. For a fact that is known the
decoder is not run. -/
def offer (info : ExtraTypeInfo) (next : Offer τ) : Response τ :=
  match info.get next.fact with
  | some _ => ⟨.ok false, [], info⟩
  | none =>
    let decoding := next.decoder ()
    match decoding.outcome with
    | .ok value => ⟨.ok true, decoding.trace, info.set next.fact value⟩
    | .error e => ⟨.error e, decoding.trace, info⟩

def offerAll : List (Offer τ) → ExtraTypeInfo → List (Response τ)
  | [], _ => []
  | next :: more, info =>
    let response := info.offer next
    response :: offerAll more response.info

def afterOffers (offers : List (Offer τ)) (info : ExtraTypeInfo) : ExtraTypeInfo :=
  offers.foldl (fun info next => (info.offer next).info) info

@[simp] theorem get_empty (fact : TypeFact) : empty.get fact = none := by
  cases fact <;> rfl

@[simp] theorem get_set_self (info : ExtraTypeInfo) (fact : TypeFact) (value : fact.Value) :
    (info.set fact value).get fact = some value := by
  cases fact <;> rfl

/-- Setting one fact does not touch the other. -/
theorem get_set_of_ne (info : ExtraTypeInfo) {fact other : TypeFact} (value : fact.Value)
    (h : other ≠ fact) : (info.set fact value).get other = info.get other := by
  cases fact <;> cases other
  · exact absurd rfl h
  · rfl
  · rfl
  · exact absurd rfl h

/-- An offer for a fact that is known changes nothing and leaves no trace, whatever its decoder is.
-/
theorem offer_of_some {info : ExtraTypeInfo} {next : Offer τ} {value : next.fact.Value}
    (h : info.get next.fact = some value) : info.offer next = ⟨.ok false, [], info⟩ := by
  simp only [offer, h]

theorem offer_of_ok {info : ExtraTypeInfo} {next : Offer τ} {value : next.fact.Value}
    (h : info.get next.fact = none) (hvalue : (next.decoder ()).outcome = .ok value) :
    info.offer next = ⟨.ok true, (next.decoder ()).trace, info.set next.fact value⟩ := by
  simp only [offer, h, hvalue]

/-- A decoder that fails leaves its error and its trace, and nothing is learnt. -/
theorem offer_of_error {info : ExtraTypeInfo} {next : Offer τ} {e : DebugError}
    (h : info.get next.fact = none) (he : (next.decoder ()).outcome = .error e) :
    info.offer next = ⟨.error e, (next.decoder ()).trace, info⟩ := by
  simp only [offer, h, he]

/-- What is known stays, and else it is what the decoder gives. -/
theorem get_offer_self (info : ExtraTypeInfo) (next : Offer τ) :
    (info.offer next).info.get next.fact =
      (info.get next.fact).or (next.decoder ()).outcome.toOption := by
  cases hknown : info.get next.fact with
  | some known => rw [offer_of_some hknown, hknown, Option.some_or]
  | none =>
    cases houtcome : (next.decoder ()).outcome with
    | ok value =>
      rw [offer_of_ok hknown houtcome, get_set_self]
      rfl
    | error e =>
      rw [offer_of_error hknown houtcome, hknown]
      rfl

/-- An offer for one fact has no say in the other. -/
theorem get_offer_of_ne (info : ExtraTypeInfo) {next : Offer τ} {other : TypeFact}
    (h : other ≠ next.fact) : (info.offer next).info.get other = info.get other := by
  cases hknown : info.get next.fact with
  | some known => rw [offer_of_some hknown]
  | none =>
    cases houtcome : (next.decoder ()).outcome with
    | ok value => rw [offer_of_ok hknown houtcome, get_set_of_ne info value h]
    | error e => rw [offer_of_error hknown houtcome]

/-- Two are the same if they say the same of each fact. -/
theorem ext_get {first second : ExtraTypeInfo} (h : ∀ fact, first.get fact = second.get fact) :
    first = second := by
  obtain ⟨names, flags⟩ := first
  obtain ⟨names', flags'⟩ := second
  have hnames : names = names' := h .tupleElementNames
  have hflags : flags = flags' := h .dynamicFlags
  rw [hnames, hflags]

theorem isComplete_iff (info : ExtraTypeInfo) :
    info.isComplete = true ↔ ∀ fact, (info.get fact).isSome = true := by
  constructor
  · intro h fact
    rw [isComplete, Bool.and_eq_true] at h
    cases fact
    · exact h.1
    · exact h.2
  · intro h
    rw [isComplete, Bool.and_eq_true]
    exact ⟨h .tupleElementNames, h .dynamicFlags⟩

theorem isEmpty_iff (info : ExtraTypeInfo) : info.isEmpty = true ↔ info = empty := by
  obtain ⟨names, flags⟩ := info
  cases names <;> cases flags <;> simp [isEmpty, empty]

theorem isEmpty_iff_not_isSome (info : ExtraTypeInfo) : info.isEmpty = true ↔
    ¬ (info.tupleElementNames.isSome = true ∨ info.dynamicFlags.isSome = true) := by
  obtain ⟨names, flags⟩ := info
  cases names <;> cases flags <;> simp [isEmpty]

end ExtraTypeInfo

end PortablePdb
