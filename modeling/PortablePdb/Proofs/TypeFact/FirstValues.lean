import PortablePdb.TypeFact

/-!
# The first value of each fact

An offer is taken if nothing is known of its fact yet and its decoder succeeds. So after any offers,
what is known of a fact is the first value that was offered for it (`get_afterOffers`). An offer for
one fact never touches the other, and therefore it does not matter how the offers for the two facts
follow one another (`afterOffers_congr`).

* `meets_offer`: how one offer is met, and in particular whether its decoder is run.
* `keepsFirst`: what is known after some offers, and how each of them was met.
-/

namespace PortablePdb.ExtraTypeInfo

variable {τ : Type}

/-- The value that an offer has for a fact, if it is for this fact and its decoder succeeds. -/
def Offer.value? (next : Offer τ) (fact : TypeFact) : Option fact.Value :=
  if h : next.fact = fact then h ▸ (next.decoder ()).outcome.toOption else none

/-- The facts that something is known of. -/
def known (info : ExtraTypeInfo) : List TypeFact :=
  [.tupleElementNames, .dynamicFlags].filter fun fact => (info.get fact).isSome

/-! ## One offer -/

theorem value?_self (next : Offer τ) :
    next.value? next.fact = (next.decoder ()).outcome.toOption := by
  simp [Offer.value?]

theorem value?_of_ne {next : Offer τ} {fact : TypeFact} (h : next.fact ≠ fact) :
    next.value? fact = none := dif_neg h

theorem value?_eq_some_iff {next : Offer τ} {fact : TypeFact} {value : fact.Value} :
    next.value? fact = some value ↔
      ∃ decoder, next = ⟨fact, decoder⟩ ∧ (decoder ()).outcome = .ok value := by
  constructor
  · intro h
    by_cases hfact : next.fact = fact
    · subst hfact
      rw [value?_self] at h
      refine ⟨next.decoder, rfl, ?_⟩
      cases houtcome : (next.decoder ()).outcome with
      | ok found =>
        rw [houtcome] at h
        exact congrArg _ (Option.some.inj h)
      | error e =>
        rw [houtcome] at h
        cases h
    · rw [value?_of_ne hfact] at h
      cases h
  · rintro ⟨decoder, rfl, houtcome⟩
    have hvalue : Offer.value? ⟨fact, decoder⟩ fact = (decoder ()).outcome.toOption := value?_self _
    rw [hvalue, houtcome]
    rfl

theorem value?_eq_none_iff {next : Offer τ} {fact : TypeFact} :
    next.value? fact = none ↔
      (next.fact = fact → ∃ e, (next.decoder ()).outcome = .error e) := by
  by_cases hfact : next.fact = fact
  · subst hfact
    rw [value?_self]
    cases (next.decoder ()).outcome <;> simp [Except.toOption]
  · rw [value?_of_ne hfact]
    simp [hfact]

/-- What is known stays, and what is not known is learnt if the offer has a value for it. -/
theorem get_offer (info : ExtraTypeInfo) (next : Offer τ) (fact : TypeFact) :
    (info.offer next).info.get fact = (info.get fact).or (next.value? fact) := by
  by_cases hfact : next.fact = fact
  · subst hfact
    rw [get_offer_self, value?_self]
  · rw [get_offer_of_ne info (Ne.symm hfact), value?_of_ne hfact, Option.or_none]

/-- How an offer is met. -/
structure Meets (before : ExtraTypeInfo) (next : Offer τ) (response : Response τ) : Prop where
  /-- The decoder is run once if nothing is known of the fact, and else it is not run. -/
  decoded : response.trace =
    if (before.get next.fact).isNone then (next.decoder ()).trace else []
  /-- An offer whose decoder is not run is met alike whatever the decoder is. -/
  undecoded : before.get next.fact ≠ none →
    ∀ decoder, before.offer ⟨next.fact, decoder⟩ = response
  /-- The offer is reported as taken if it is this offer by which the fact is known. -/
  taken : response.outcome = .ok true ↔
    before.get next.fact = none ∧ ∃ value, response.info.get next.fact = some value
  /-- It is reported as not needed if the fact was known. -/
  notNeeded : response.outcome = .ok false ↔ ∃ value, before.get next.fact = some value
  /-- Otherwise the decoder failed, and its error is reported. -/
  failed : ∀ e, response.outcome = .error e ↔
    before.get next.fact = none ∧ (next.decoder ()).outcome = .error e
  /-- An offer that is not taken changes nothing. -/
  unchanged : response.outcome ≠ .ok true → response.info = before
  /-- No offer changes the other fact. -/
  others : ∀ fact, fact ≠ next.fact → response.info.get fact = before.get fact

theorem meets_offer (info : ExtraTypeInfo) (next : Offer τ) :
    Meets info next (info.offer next) := by
  have hothers : ∀ fact, fact ≠ next.fact → (info.offer next).info.get fact = info.get fact :=
    fun fact h => get_offer_of_ne info h
  cases hknown : info.get next.fact with
  | some value =>
    have hoffer := offer_of_some hknown
    have hundecoded : ∀ decoder, info.offer ⟨next.fact, decoder⟩ = info.offer next := by
      intro decoder
      have hother : info.offer ⟨next.fact, decoder⟩ = ⟨.ok false, [], info⟩ := offer_of_some hknown
      rw [hother, hoffer]
    refine ⟨?_, fun _ => hundecoded, ?_, ?_, ?_, ?_, hothers⟩ <;> simp [hoffer, hknown]
  | none =>
    cases houtcome : (next.decoder ()).outcome with
    | ok value =>
      have hoffer := offer_of_ok hknown houtcome
      refine ⟨?_, ?_, ?_, ?_, ?_, ?_, hothers⟩ <;> simp [hoffer, hknown, houtcome]
    | error e =>
      have hoffer := offer_of_error hknown houtcome
      refine ⟨?_, ?_, ?_, ?_, ?_, ?_, hothers⟩ <;> simp [hoffer, hknown, houtcome]

/-! ## Several offers -/

theorem get_afterOffers (offers : List (Offer τ)) (info : ExtraTypeInfo) (fact : TypeFact) :
    (afterOffers offers info).get fact =
      (info.get fact).or (offers.findSome? (·.value? fact)) := by
  induction offers generalizing info with
  | nil => exact Option.or_none.symm
  | cons next more ih =>
    have hmore : afterOffers (next :: more) info = afterOffers more (info.offer next).info := rfl
    rw [hmore, ih, get_offer, Option.or_assoc, List.findSome?_cons]
    cases next.value? fact <;> rfl

theorem get_afterOffers_empty (offers : List (Offer τ)) (fact : TypeFact) :
    (afterOffers offers empty).get fact = offers.findSome? (·.value? fact) := by
  rw [get_afterOffers, get_empty, Option.none_or]

theorem afterOffers_take_succ {offers : List (Offer τ)} {k : Nat} {next : Offer τ}
    (h : offers[k]? = some next) (info : ExtraTypeInfo) :
    afterOffers (offers.take (k + 1)) info =
      ((afterOffers (offers.take k) info).offer next).info := by
  rw [afterOffers, List.take_add_one, h, List.foldl_append]
  rfl

theorem getElem?_offerAll (offers : List (Offer τ)) (info : ExtraTypeInfo) (k : Nat) :
    (offerAll offers info)[k]? =
      offers[k]?.map fun next => (afterOffers (offers.take k) info).offer next := by
  induction offers generalizing info k with
  | nil => rfl
  | cons next more ih =>
    cases k with
    | zero => rfl
    | succ k => exact ih (info.offer next).info k

/-- Only the offers for a fact have values for it. -/
theorem findSome?_filter_fact (offers : List (Offer τ)) (fact : TypeFact) :
    (offers.filter (·.fact = fact)).findSome? (·.value? fact) =
      offers.findSome? (·.value? fact) := by
  induction offers with
  | nil => rfl
  | cons next more ih =>
    by_cases h : next.fact = fact
    · have hkept : (next :: more).filter (·.fact = fact) =
          next :: more.filter (·.fact = fact) := by simp [h]
      rw [hkept, List.findSome?_cons, List.findSome?_cons, ih]
    · have hskipped : (next :: more).filter (·.fact = fact) = more.filter (·.fact = fact) := by
        simp [h]
      rw [hskipped, ih, List.findSome?_cons, value?_of_ne h]

theorem afterOffers_congr {first second : List (Offer τ)}
    (h : ∀ fact, first.filter (·.fact = fact) = second.filter (·.fact = fact)) :
    afterOffers first empty = afterOffers second empty := by
  apply ext_get
  intro fact
  rw [get_afterOffers_empty, get_afterOffers_empty, ← findSome?_filter_fact, h,
    findSome?_filter_fact]

theorem isEmpty_iff_known (info : ExtraTypeInfo) :
    info.isEmpty = true ↔ info.known.length = 0 := by
  obtain ⟨names, flags⟩ := info
  cases names <;> cases flags <;> simp [isEmpty, known, get]

theorem isComplete_iff_known (info : ExtraTypeInfo) :
    info.isComplete = true ↔ info.known.length = 2 := by
  obtain ⟨names, flags⟩ := info
  cases names <;> cases flags <;> simp [isComplete, known, get]

/-- What becomes of some offers when nothing is known before. -/
structure KeepsFirst (offers : List (Offer τ)) : Prop where
  /-- What is known of a fact is what the first offer for it brought whose decoder succeeded. -/
  some : ∀ fact value, (afterOffers offers empty).get fact = some value ↔
    ∃ front decoder back, offers = front ++ ⟨fact, decoder⟩ :: back ∧
      (decoder ()).outcome = .ok value ∧
      ∀ earlier ∈ front, earlier.fact = fact → ∃ e, (earlier.decoder ()).outcome = .error e
  /-- Nothing is known of it if there was no such offer. -/
  none : ∀ fact, (afterOffers offers empty).get fact = none ↔
    ∀ next ∈ offers, next.fact = fact → ∃ e, (next.decoder ()).outcome = .error e
  /-- Every offer meets with what the offers before it have left. -/
  responses : ∀ k next, offers[k]? = .some next →
    ∃ response, (offerAll offers empty)[k]? = .some response ∧
      Meets (afterOffers (offers.take k) empty) next response ∧
      response.info = afterOffers (offers.take (k + 1)) empty
  isEmpty : (afterOffers offers empty).isEmpty = true ↔
    (afterOffers offers empty).known.length = 0
  isComplete : (afterOffers offers empty).isComplete = true ↔
    (afterOffers offers empty).known.length = 2
  /-- Only the order of the offers for each fact matters. -/
  interleaving : ∀ others : List (Offer τ),
    (∀ fact, others.filter (·.fact = fact) = offers.filter (·.fact = fact)) →
      afterOffers others empty = afterOffers offers empty

/-- **The first value wins**, for each fact on its own. -/
theorem keepsFirst (offers : List (Offer τ)) : KeepsFirst offers where
  some fact value := by
    simp only [get_afterOffers_empty, List.findSome?_eq_some_iff, value?_eq_some_iff,
      value?_eq_none_iff]
    constructor
    · rintro ⟨front, _, back, hoffers, ⟨decoder, rfl, houtcome⟩, hfront⟩
      exact ⟨front, decoder, back, hoffers, houtcome, hfront⟩
    · rintro ⟨front, decoder, back, hoffers, houtcome, hfront⟩
      exact ⟨front, _, back, hoffers, ⟨decoder, rfl, houtcome⟩, hfront⟩
  none fact := by
    simp only [get_afterOffers_empty, List.findSome?_eq_none_iff, value?_eq_none_iff]
  responses k next h := by
    refine ⟨(afterOffers (offers.take k) empty).offer next, ?_, meets_offer _ next, ?_⟩
    · rw [getElem?_offerAll, h]
      rfl
    · rw [afterOffers_take_succ h]
  isEmpty := isEmpty_iff_known _
  isComplete := isComplete_iff_known _
  interleaving _ h := afterOffers_congr h

/-- No names are a value like any other; the two offers for flags may come later. The second offer
of names is not decoded. -/
theorem keepsFirst_noNames :
    let failed : Offer Char := ⟨.dynamicFlags, fun _ => ⟨.error .empty, ['e']⟩⟩
    let flags : Offer Char := ⟨.dynamicFlags, fun _ => ⟨.ok [true], ['f']⟩⟩
    let noNames : Offer Char := ⟨.tupleElementNames, fun _ => ⟨.ok [], ['n']⟩⟩
    let names : Offer Char := ⟨.tupleElementNames, fun _ => ⟨.ok [some "a"], ['a']⟩⟩
    (offerAll [failed, noNames, flags, names] empty).map Response.trace =
        [['e'], ['n'], ['f'], []] ∧
      afterOffers [failed, noNames, flags, names] empty = ⟨some [], some [true]⟩ ∧
      afterOffers [noNames, names, failed, flags] empty = ⟨some [], some [true]⟩ := by
  intro failed flags noNames names
  have hfirst : afterOffers [failed, noNames, flags, names] empty = ⟨some [], some [true]⟩ := rfl
  refine ⟨rfl, hfirst, ?_⟩
  rw [← hfirst]
  apply (keepsFirst [failed, noNames, flags, names]).interleaving
  intro fact
  cases fact <;> rfl

end PortablePdb.ExtraTypeInfo
