import PortablePdb.Provider
import PortablePdb.Store.Snapshot

/-!
# Sessions with a provider that keeps what it was told

A session is a list of visits, each with the store that is in force while it lasts. What a
provider keeps of a slot after some visits is what the first of them told that told anything of
it (`getElem?_cache_after`): a later one is not even asked, and one that failed told nothing.
Every reply of a session follows from this, since the provider that gives it is the one left
behind by the visits before it (`getElem?_answerAll`).

* `answerAll_replies`: the replies of a session are those of the first visits that told
  anything, and over a store that does not change they are those of a provider that keeps nothing.
-/

namespace PortablePdb.Provider

/-! ## Visits -/

namespace Visit

/-- The reply to a visit that does not depend on other visits. -/
def plain (visit : Visit) : Reply := ⟨visit.request, visit.request.runOn visit.store⟩

/-- What the store in force tells of the type of a slot. -/
def decode (visit : Visit) (slot : Slot) : Run (Option ExtraTypeInfo) :=
  (Request.typeFacts slot.method slot.index).runOn visit.store

/-- A visit tells the type of a slot if it asks for it and the store in force answers. -/
def Tells (visit : Visit) (slot : Slot) (info : Option ExtraTypeInfo) : Prop :=
  visit.request = .typeFacts slot.method slot.index ∧ (visit.decode slot).outcome = .ok info

def told? (slot : Slot) (visit : Visit) : Option (Option ExtraTypeInfo) :=
  if visit.request = .typeFacts slot.method slot.index then (visit.decode slot).outcome.toOption
  else none

theorem told?_eq_some_iff {slot : Slot} {visit : Visit} {info : Option ExtraTypeInfo} :
    visit.told? slot = some info ↔ visit.Tells slot info := by
  unfold told? Tells
  by_cases hrequest : visit.request = .typeFacts slot.method slot.index
  · rw [if_pos hrequest]
    cases hrun : (visit.decode slot).outcome with
    | ok found => simp [hrequest, Except.toOption]
    | error e => simp [Except.toOption]
  · simp [hrequest]

theorem told?_self (store : Option Store) (slot : Slot) :
    told? slot ⟨store, .typeFacts slot.method slot.index⟩ =
      ((Request.typeFacts slot.method slot.index).runOn store).outcome.toOption := if_pos rfl

theorem told?_of_ne {slot : Slot} {visit : Visit}
    (h : visit.request ≠ .typeFacts slot.method slot.index) : visit.told? slot = none := if_neg h

end Visit

/-- Of some visits, number `j` is the first that tells the type of a slot. -/
structure FirstTells (visits : List Visit) (slot : Slot) (j : Nat)
    (info : Option ExtraTypeInfo) : Prop where
  tells : ∃ visit, visits[j]? = some visit ∧ visit.Tells slot info
  first : ∀ earlier ∈ visits.take j, ∀ other, ¬ earlier.Tells slot other

theorem take_eq_append {visits : List Visit} {visit : Visit} {j k : Nat} (hj : j < k)
    (hvisit : visits[j]? = some visit) :
    visits.take k = visits.take j ++ visit :: (visits.drop (j + 1)).take (k - (j + 1)) := by
  obtain ⟨hlt, hget⟩ := List.getElem?_eq_some_iff.1 hvisit
  have hstep : k - j = k - (j + 1) + 1 := by omega
  have htake : (visits.take k).take j = visits.take j := by
    rw [List.take_take, Nat.min_eq_left (Nat.le_of_lt hj)]
  have hdrop : (visits.take k).drop j = visit :: (visits.drop (j + 1)).take (k - (j + 1)) := by
    rw [List.drop_take, List.drop_eq_getElem_cons hlt, hget, hstep, List.take_succ_cons]
  rw [← htake, ← hdrop, List.take_append_drop]

/-- What the visits before the `k`-th told of a slot first is what one of them told as the first. -/
theorem findSome?_take_eq_some_iff {visits : List Visit} {slot : Slot} {k : Nat}
    {info : Option ExtraTypeInfo} :
    (visits.take k).findSome? (Visit.told? slot) = some info ↔
      ∃ j < k, FirstTells visits slot j info := by
  constructor
  · intro h
    obtain ⟨before, visit, after, hsplit, htold, hbefore⟩ := List.findSome?_eq_some_iff.1 h
    have hvisits : visits = before ++ visit :: (after ++ visits.drop k) := by
      rw [← List.cons_append, ← List.append_assoc, ← hsplit, List.take_append_drop]
    have hlength : (visits.take k).length = before.length + (after.length + 1) := by
      rw [hsplit, List.length_append, List.length_cons]
    refine ⟨before.length, ?_, ⟨visit, ?_, Visit.told?_eq_some_iff.1 htold⟩, ?_⟩
    · have := List.length_take_le k visits
      omega
    · rw [hvisits]
      simp
    · intro earlier hearlier other htells
      rw [hvisits, List.take_left] at hearlier
      have hnone := hbefore earlier hearlier
      rw [Visit.told?_eq_some_iff.2 htells] at hnone
      cases hnone
  · rintro ⟨j, hj, ⟨visit, hvisit, htells⟩, hfirst⟩
    refine List.findSome?_eq_some_iff.2
      ⟨_, visit, _, take_eq_append hj hvisit, Visit.told?_eq_some_iff.2 htells, ?_⟩
    intro earlier hearlier
    cases htold : earlier.told? slot with
    | none => rfl
    | some other => exact absurd (Visit.told?_eq_some_iff.1 htold) (hfirst earlier hearlier other)

theorem FirstTells.eq {visits : List Visit} {slot : Slot} {i j : Nat}
    {info other : Option ExtraTypeInfo} (h : FirstTells visits slot i info)
    (h' : FirstTells visits slot j other) : info = other := by
  have hfirst := findSome?_take_eq_some_iff.2 ⟨i, (by omega : i < i + j + 1), h⟩
  have hsecond := findSome?_take_eq_some_iff.2 ⟨j, (by omega : j < i + j + 1), h'⟩
  rw [hfirst] at hsecond
  exact Option.some.inj hsecond

theorem firstTells_iff_of_untold {visits : List Visit} {slot : Slot} {k : Nat}
    {store : Option Store} {info : Option ExtraTypeInfo}
    (hvisit : visits[k]? = some ⟨store, .typeFacts slot.method slot.index⟩)
    (htold : (visits.take k).findSome? (Visit.told? slot) = none) :
    FirstTells visits slot k info ↔
      ((Request.typeFacts slot.method slot.index).runOn store).outcome = .ok info := by
  constructor
  · rintro ⟨⟨visit, hget, htells⟩, -⟩
    rw [hvisit] at hget
    cases hget
    exact htells.2
  · intro hrun
    refine ⟨⟨_, hvisit, rfl, hrun⟩, ?_⟩
    intro earlier hearlier other htells
    have hnone := List.findSome?_eq_none_iff.1 htold earlier hearlier
    rw [Visit.told?_eq_some_iff.2 htells] at hnone
    cases hnone

/-! ## One visit -/

def reply (provider : Provider) (visit : Visit) : Reply :=
  ⟨visit.request, ((provider.withStore visit.store).answer visit.request).1⟩

def next (provider : Provider) (visit : Visit) : Provider :=
  ((provider.withStore visit.store).answer visit.request).2

section

variable {provider : Provider} {visit : Visit} {slot : Slot}

theorem cachedSlot?_of_ne (h : ∀ method index, visit.request ≠ .typeFacts method index) :
    provider.cachedSlot? visit.request = none := by
  cases hrequest : visit.request with
  | typeFacts method index => exact absurd hrequest (h method index)
  | _ => rfl

theorem reply_of_not_cached (h : provider.cachedSlot? visit.request = none) :
    provider.reply visit = visit.plain := by
  have hstore : (provider.withStore visit.store).cachedSlot? visit.request = none := h
  rw [reply, answer_of_not_cached hstore]
  rfl

theorem next_of_not_cached (h : provider.cachedSlot? visit.request = none) :
    provider.next visit = provider.withStore visit.store := by
  have hstore : (provider.withStore visit.store).cachedSlot? visit.request = none := h
  rw [next, answer_of_not_cached hstore]

theorem answerCached_of_kept {info : Option ExtraTypeInfo} (h : provider.cache[slot]? = some info) :
    provider.answerCached slot =
      (⟨.ok info, [], [.cacheHit slot.method slot.index]⟩, provider) := by
  rw [answerCached, h]

theorem answerCached_of_ok {info : Option ExtraTypeInfo} (h : provider.cache[slot]? = none)
    (hrun : ((Request.typeFacts slot.method slot.index).runOn provider.store).outcome = .ok info) :
    provider.answerCached slot =
      ((Request.typeFacts slot.method slot.index).runOn provider.store,
        { provider with cache := provider.cache.insert slot info }) := by
  rw [answerCached, h]
  simp only [hrun]

theorem answerCached_of_error {e : DebugError} (h : provider.cache[slot]? = none)
    (hrun : ((Request.typeFacts slot.method slot.index).runOn provider.store).outcome = .error e) :
    provider.answerCached slot =
      ((Request.typeFacts slot.method slot.index).runOn provider.store, provider) := by
  rw [answerCached, h]
  simp only [hrun]

/-- What is kept stays, and what is not is kept from now on if the store tells it. An error leaves
nothing behind. -/
theorem getElem?_cache_answerCached (provider : Provider) (asked slot : Slot) :
    (provider.answerCached asked).2.cache[slot]? =
      provider.cache[slot]?.or (Visit.told? slot
        ⟨provider.store, .typeFacts asked.method asked.index⟩) := by
  by_cases hslot : asked = slot
  · subst hslot
    rw [Visit.told?_self]
    cases hcache : provider.cache[asked]? with
    | some info =>
      rw [answerCached_of_kept hcache]
      exact hcache
    | none =>
      cases hrun : ((Request.typeFacts asked.method asked.index).runOn provider.store).outcome with
      | ok info =>
        rw [answerCached_of_ok hcache hrun]
        exact Std.TreeMap.getElem?_insert_self
      | error e =>
        rw [answerCached_of_error hcache hrun]
        exact hcache
  · have htold : Visit.told? slot ⟨provider.store, .typeFacts asked.method asked.index⟩ = none := by
      refine Visit.told?_of_ne ?_
      intro hrequest
      obtain ⟨method, index⟩ := slot
      injection hrequest with hmethod hindex
      subst hmethod hindex
      exact hslot rfl
    rw [htold, Option.or_none]
    cases hcache : provider.cache[asked]? with
    | some info => rw [answerCached_of_kept hcache]
    | none =>
      cases hrun : ((Request.typeFacts asked.method asked.index).runOn provider.store).outcome with
      | ok info =>
        rw [answerCached_of_ok hcache hrun]
        have hne : Slot.compare asked slot ≠ .eq := fun h => hslot (Std.LawfulEqCmp.eq_of_compare h)
        show (provider.cache.insert asked info)[slot]? = provider.cache[slot]?
        rw [Std.TreeMap.getElem?_insert, if_neg hne]
      | error e => rw [answerCached_of_error hcache hrun]

theorem config_answerCached (provider : Provider) (slot : Slot) :
    (provider.answerCached slot).2.config = provider.config := by
  cases hcache : provider.cache[slot]? with
  | some info => rw [answerCached_of_kept hcache]
  | none =>
    cases hrun : ((Request.typeFacts slot.method slot.index).runOn provider.store).outcome with
    | ok info => rw [answerCached_of_ok hcache hrun]
    | error e => rw [answerCached_of_error hcache hrun]

theorem cachedSlot?_eq_some_iff {request : Request} : provider.cachedSlot? request = some slot ↔
    provider.config.keepsTypeInfo = true ∧ request = .typeFacts slot.method slot.index := by
  cases request with
  | typeFacts method index =>
    obtain ⟨_, _⟩ := slot
    simp [cachedSlot?]
  | _ => simp [cachedSlot?]

theorem next_of_cached (h : provider.cachedSlot? visit.request = some slot) :
    provider.next visit = ((provider.withStore visit.store).answerCached slot).2 := by
  obtain ⟨store, request⟩ := visit
  obtain ⟨hkeeps, hrequest⟩ := cachedSlot?_eq_some_iff.1 h
  simp only at hrequest
  subst hrequest
  have hstore : (provider.withStore store).config.keepsTypeInfo = true := hkeeps
  rw [next, answer, if_pos hstore]

theorem config_next (provider : Provider) (visit : Visit) :
    (provider.next visit).config = provider.config := by
  cases hslot : provider.cachedSlot? visit.request with
  | none =>
    rw [next_of_not_cached hslot]
    rfl
  | some slot =>
    rw [next_of_cached hslot, config_answerCached]
    rfl

/-- One visit: what is kept of a slot behind it is what was kept before or, failing that, what the
visit told. -/
theorem getElem?_cache_next (hkeeps : provider.config.keepsTypeInfo = true) (visit : Visit)
    (slot : Slot) :
    (provider.next visit).cache[slot]? = provider.cache[slot]?.or (visit.told? slot) := by
  cases hslot : provider.cachedSlot? visit.request with
  | none =>
    have hne : visit.request ≠ .typeFacts slot.method slot.index := by
      intro hrequest
      rw [cachedSlot?_eq_some_iff.2 ⟨hkeeps, hrequest⟩] at hslot
      cases hslot
    rw [next_of_not_cached hslot, Visit.told?_of_ne hne, Option.or_none]
    rfl
  | some asked =>
    obtain ⟨store, request⟩ := visit
    obtain ⟨-, hrequest⟩ := cachedSlot?_eq_some_iff.1 hslot
    simp only at hrequest
    subst hrequest
    rw [next_of_cached hslot, getElem?_cache_answerCached]
    rfl

theorem reply_of_kept {info : Option ExtraTypeInfo} (store : Option Store)
    (hkeeps : provider.config.keepsTypeInfo = true) (h : provider.cache[slot]? = some info) :
    provider.reply ⟨store, .typeFacts slot.method slot.index⟩ =
      ⟨.typeFacts slot.method slot.index,
        ⟨.ok info, [], [.cacheHit slot.method slot.index]⟩⟩ := by
  have hstore : (provider.withStore store).config.keepsTypeInfo = true := hkeeps
  have hcache : (provider.withStore store).cache[slot]? = some info := h
  simp only [reply, answer, hstore, if_true, answerCached_of_kept hcache]

theorem reply_of_not_kept (store : Option Store) (hkeeps : provider.config.keepsTypeInfo = true)
    (h : provider.cache[slot]? = none) :
    provider.reply ⟨store, .typeFacts slot.method slot.index⟩ =
      Visit.plain ⟨store, .typeFacts slot.method slot.index⟩ := by
  have hstore : (provider.withStore store).config.keepsTypeInfo = true := hkeeps
  have hcache : (provider.withStore store).cache[slot]? = none := h
  simp only [reply, answer, hstore, if_true]
  cases hrun : ((Request.typeFacts slot.method slot.index).runOn
      (provider.withStore store).store).outcome with
  | ok info =>
    rw [answerCached_of_ok hcache hrun]
    rfl
  | error e =>
    rw [answerCached_of_error hcache hrun]
    rfl

theorem next_of_error {e : DebugError} (store : Option Store)
    (hkeeps : provider.config.keepsTypeInfo = true) (h : provider.cache[slot]? = none)
    (hrun : ((Request.typeFacts slot.method slot.index).runOn store).outcome = .error e) :
    provider.next ⟨store, .typeFacts slot.method slot.index⟩ = provider.withStore store := by
  have hstore : (provider.withStore store).config.keepsTypeInfo = true := hkeeps
  have hcache : (provider.withStore store).cache[slot]? = none := h
  simp only [next, answer, hstore, if_true]
  rw [answerCached_of_error hcache hrun]

end

/-! ## Sessions -/

def after (provider : Provider) (visits : List Visit) : Provider := visits.foldl next provider

theorem config_after (provider : Provider) (visits : List Visit) :
    (provider.after visits).config = provider.config := by
  induction visits generalizing provider with
  | nil => rfl
  | cons visit more ih =>
    have hstep : (provider.after (visit :: more)).config = (provider.next visit).config :=
      ih (provider.next visit)
    rw [hstep, config_next]

theorem keepsTypeInfo_after {provider : Provider} (hkeeps : provider.config.keepsTypeInfo = true)
    (visits : List Visit) : (provider.after visits).config.keepsTypeInfo = true := by
  rw [config_after]
  exact hkeeps

/-- What is kept of a slot after some visits is what the first of them told that told anything. -/
theorem getElem?_cache_after {provider : Provider} (hkeeps : provider.config.keepsTypeInfo = true)
    (visits : List Visit) (slot : Slot) :
    (provider.after visits).cache[slot]? =
      provider.cache[slot]?.or (visits.findSome? (Visit.told? slot)) := by
  induction visits generalizing provider with
  | nil =>
    rw [List.findSome?_nil, Option.or_none]
    rfl
  | cons visit more ih =>
    have hnext : (provider.next visit).config.keepsTypeInfo = true := by
      rw [config_next]
      exact hkeeps
    have hstep : (provider.after (visit :: more)).cache[slot]? =
        (provider.next visit).cache[slot]?.or (more.findSome? (Visit.told? slot)) := ih hnext
    rw [hstep, getElem?_cache_next hkeeps, Option.or_assoc, List.findSome?_cons]
    cases visit.told? slot with
    | none => rfl
    | some info => rfl

/-- Each reply comes from the provider that the visits before it have left. -/
theorem getElem?_answerAll (provider : Provider) (visits : List Visit) (k : Nat) :
    (provider.answerAll visits)[k]? =
      visits[k]?.map (provider.after (visits.take k)).reply := by
  induction visits generalizing provider k with
  | nil => rfl
  | cons visit more ih =>
    cases k with
    | zero => rfl
    | succ k => exact ih (provider.next visit) k

def Reply.result (reply : Reply) : (request : Request) × Except DebugError request.Answer :=
  ⟨reply.request, reply.run.outcome⟩

/-- How visit `k` of a session, which asks for the type of a slot, goes. -/
structure FollowsFirst (provider : Provider) (visits : List Visit) (k : Nat)
    (store : Option Store) (slot : Slot) (run : Run (Option ExtraTypeInfo)) : Prop where
  /-- The answer is that of the first visit that told anything, this one included. -/
  told : ∀ j ≤ k, ∀ info, FirstTells visits slot j info → run.outcome = .ok info
  /-- If that was an earlier visit, the store is not asked. -/
  unasked : ∀ j < k, ∀ info, FirstTells visits slot j info → run.lookups = []
  /-- If there is no such visit, the run fails as it would by itself. -/
  failed : (∀ j ≤ k, ∀ info, ¬ FirstTells visits slot j info) →
    ∃ e, ((Request.typeFacts slot.method slot.index).runOn store).outcome = .error e ∧
      run.outcome = .error e
  /-- A visit that fails leaves what is kept as it is. -/
  unchanged : (∀ j ≤ k, ∀ info, ¬ FirstTells visits slot j info) →
    (provider.after (visits.take (k + 1))).cache = (provider.after (visits.take k)).cache

section

variable {provider : Provider} {visits : List Visit} {visit : Visit} {slot : Slot}
  {store : Option Store} {info : Option ExtraTypeInfo} {k : Nat}

/-- Without the cache no visit depends on another one. -/
theorem answerAll_of_not_keeping (h : provider.config.keepsTypeInfo = false) :
    provider.answerAll visits = visits.map Visit.plain := by
  refine List.ext_getElem? fun k => ?_
  have hafter : (provider.after (visits.take k)).config.keepsTypeInfo = false := by
    rw [config_after]
    exact h
  rw [getElem?_answerAll, List.getElem?_map]
  congr 1
  funext visit
  apply reply_of_not_cached
  cases hslot : (provider.after (visits.take k)).cachedSlot? visit.request with
  | none => rfl
  | some slot =>
    obtain ⟨hkeeps, -⟩ := cachedSlot?_eq_some_iff.1 hslot
    rw [hafter] at hkeeps
    cases hkeeps

theorem after_take_succ (hvisit : visits[k]? = some visit) :
    provider.after (visits.take (k + 1)) = (provider.after (visits.take k)).next visit := by
  rw [after, List.take_add_one, hvisit, List.foldl_append]
  rfl

theorem getElem?_answerAll_of_ne (hvisit : visits[k]? = some visit)
    (h : ∀ method index, visit.request ≠ .typeFacts method index) :
    (provider.answerAll visits)[k]? = some visit.plain := by
  rw [getElem?_answerAll, hvisit, Option.map_some, reply_of_not_cached (cachedSlot?_of_ne h)]

variable (hkeeps : provider.config.keepsTypeInfo = true) (hfresh : provider.cache = ∅)

include hkeeps hfresh

theorem getElem?_cache_after_take (visits : List Visit) (slot : Slot) (k : Nat) :
    (provider.after (visits.take k)).cache[slot]? =
      (visits.take k).findSome? (Visit.told? slot) := by
  have hempty : provider.cache[slot]? = none := by
    rw [hfresh]
    exact Std.TreeMap.getElem?_emptyc
  rw [getElem?_cache_after hkeeps, hempty, Option.none_or]

/-- Once told, the type of a slot is replied to without a lookup. -/
theorem getElem?_answerAll_of_told
    (hvisit : visits[k]? = some ⟨store, .typeFacts slot.method slot.index⟩)
    (htold : (visits.take k).findSome? (Visit.told? slot) = some info) :
    (provider.answerAll visits)[k]? = some ⟨.typeFacts slot.method slot.index,
      ⟨.ok info, [], [.cacheHit slot.method slot.index]⟩⟩ := by
  have hkeep := keepsTypeInfo_after hkeeps (visits.take k)
  have hcache := getElem?_cache_after_take hkeeps hfresh visits slot k
  rw [htold] at hcache
  rw [getElem?_answerAll, hvisit, Option.map_some, reply_of_kept store hkeep hcache]

/-- While nobody has told it, the reply is that of the store in force. -/
theorem getElem?_answerAll_of_untold
    (hvisit : visits[k]? = some ⟨store, .typeFacts slot.method slot.index⟩)
    (htold : (visits.take k).findSome? (Visit.told? slot) = none) :
    (provider.answerAll visits)[k]? =
      some (Visit.plain ⟨store, .typeFacts slot.method slot.index⟩) := by
  have hkeep := keepsTypeInfo_after hkeeps (visits.take k)
  have hcache := getElem?_cache_after_take hkeeps hfresh visits slot k
  rw [htold] at hcache
  rw [getElem?_answerAll, hvisit, Option.map_some, reply_of_not_kept store hkeep hcache]

theorem cache_after_take_succ_of_error {e : DebugError}
    (hvisit : visits[k]? = some ⟨store, .typeFacts slot.method slot.index⟩)
    (htold : (visits.take k).findSome? (Visit.told? slot) = none)
    (hrun : ((Request.typeFacts slot.method slot.index).runOn store).outcome = .error e) :
    (provider.after (visits.take (k + 1))).cache = (provider.after (visits.take k)).cache := by
  have hkeep := keepsTypeInfo_after hkeeps (visits.take k)
  have hcache := getElem?_cache_after_take hkeeps hfresh visits slot k
  rw [htold] at hcache
  rw [after_take_succ hvisit, next_of_error store hkeep hcache hrun]
  rfl

/-- A visit after one that told the type, whose answer is the only one that can come first. -/
theorem followsFirst_of_told
    (hvisit : visits[k]? = some ⟨store, .typeFacts slot.method slot.index⟩)
    (htold : (visits.take k).findSome? (Visit.told? slot) = some info) :
    ∃ run, (provider.answerAll visits)[k]? = some ⟨.typeFacts slot.method slot.index, run⟩ ∧
      FollowsFirst provider visits k store slot run := by
  obtain ⟨i, hi, hknown⟩ := findSome?_take_eq_some_iff.1 htold
  refine ⟨_, getElem?_answerAll_of_told hkeeps hfresh hvisit htold, ?_, ?_, ?_, ?_⟩
  · intro j _ other hother
    rw [hknown.eq hother]
  · intro j _ other _
    rfl
  · intro hnone
    exact absurd hknown (hnone i (Nat.le_of_lt hi) info)
  · intro hnone
    exact absurd hknown (hnone i (Nat.le_of_lt hi) info)

/-- A visit before which no visit told the type, so it is the first to tell or it fails. -/
theorem followsFirst_of_untold
    (hvisit : visits[k]? = some ⟨store, .typeFacts slot.method slot.index⟩)
    (htold : (visits.take k).findSome? (Visit.told? slot) = none) :
    ∃ run, (provider.answerAll visits)[k]? = some ⟨.typeFacts slot.method slot.index, run⟩ ∧
      FollowsFirst provider visits k store slot run := by
  have hearlier : ∀ j < k, ∀ info, ¬ FirstTells visits slot j info := by
    intro j hj info hinfo
    rw [findSome?_take_eq_some_iff.2 ⟨j, hj, hinfo⟩] at htold
    cases htold
  have hself : ∀ info, FirstTells visits slot k info ↔
      ((Request.typeFacts slot.method slot.index).runOn store).outcome = .ok info :=
    fun info => firstTells_iff_of_untold hvisit htold
  have hfails (hnone : ∀ j ≤ k, ∀ info, ¬ FirstTells visits slot j info) :
      ∃ e, ((Request.typeFacts slot.method slot.index).runOn store).outcome = .error e := by
    cases hrun : ((Request.typeFacts slot.method slot.index).runOn store).outcome with
    | ok info => exact absurd ((hself info).2 hrun) (hnone k (Nat.le_refl k) info)
    | error e => exact ⟨e, rfl⟩
  refine ⟨_, getElem?_answerAll_of_untold hkeeps hfresh hvisit htold, ?_, ?_, ?_, ?_⟩
  · intro j hj info hinfo
    rcases Nat.lt_or_eq_of_le hj with hlt | rfl
    · exact absurd hinfo (hearlier j hlt info)
    · exact (hself info).1 hinfo
  · intro j hj info hinfo
    exact absurd hinfo (hearlier j hj info)
  · intro hnone
    obtain ⟨e, hrun⟩ := hfails hnone
    exact ⟨e, hrun, hrun⟩
  · intro hnone
    obtain ⟨e, hrun⟩ := hfails hnone
    exact cache_after_take_succ_of_error hkeeps hfresh hvisit htold hrun

/-- The reply to each request for a type is settled by the first visit that told it, if there is
one. -/
theorem exists_followsFirst
    (hvisit : visits[k]? = some ⟨store, .typeFacts slot.method slot.index⟩) :
    ∃ run, (provider.answerAll visits)[k]? = some ⟨.typeFacts slot.method slot.index, run⟩ ∧
      FollowsFirst provider visits k store slot run := by
  cases htold : (visits.take k).findSome? (Visit.told? slot) with
  | some info => exact followsFirst_of_told hkeeps hfresh hvisit htold
  | none => exact followsFirst_of_untold hkeeps hfresh hvisit htold

/-- Over one store it does not matter which visit told the type of a slot. -/
theorem result_of_same_store (hstores : ∀ visit ∈ visits, visit.store = store) :
    (provider.answerAll visits).map Reply.result =
      (visits.map Visit.plain).map Reply.result := by
  refine List.ext_getElem? fun k => ?_
  rw [List.getElem?_map, List.getElem?_map, List.getElem?_map]
  cases hvisit : visits[k]? with
  | none =>
    rw [getElem?_answerAll, hvisit]
    rfl
  | some visit =>
    by_cases htypes : ∃ slot : Slot, visit.request = .typeFacts slot.method slot.index
    · obtain ⟨slot, hrequest⟩ := htypes
      obtain rfl : visit = ⟨store, .typeFacts slot.method slot.index⟩ := by
        rw [← hrequest, ← hstores visit (List.mem_of_getElem? hvisit)]
      obtain ⟨run, hrun, hfollows⟩ := exists_followsFirst hkeeps hfresh hvisit
      have houtcome : run.outcome =
          ((Request.typeFacts slot.method slot.index).runOn store).outcome := by
        by_cases hfirst : ∃ j ≤ k, ∃ info, FirstTells visits slot j info
        · obtain ⟨j, hj, info, hinfo⟩ := hfirst
          obtain ⟨teller, hteller, -, htold⟩ := hinfo.tells
          rw [hfollows.told j hj info hinfo, ← htold, Visit.decode,
            hstores teller (List.mem_of_getElem? hteller)]
        · obtain ⟨e, hplain, hkept⟩ := hfollows.failed fun j hj info hinfo =>
            hfirst ⟨j, hj, info, hinfo⟩
          rw [hkept, hplain]
      rw [hrun, Option.map_some, Option.map_some, Option.map_some, Reply.result, houtcome]
      rfl
    · have hne : ∀ method index, visit.request ≠ .typeFacts method index :=
        fun method index hrequest => htypes ⟨⟨method, index⟩, hrequest⟩
      rw [getElem?_answerAll_of_ne hvisit hne]
      rfl

end

/-- **What a session gives.** A provider that keeps answers about types replies to a request for
the type of a slot with the first answer that the session found, and to any other request as a
provider that keeps nothing. Over one store the two cannot be told apart. -/
theorem answerAll_replies {config : ProviderConfig} (hkeeps : config.keepsTypeInfo = true)
    (store : Option Store) (visits : List Visit) :
    let keeping : Provider := ⟨config, store, ∅⟩
    let plain : Provider := ⟨config.withTypeInfoCache false, store, ∅⟩
    (∀ k current slot, visits[k]? = some ⟨current, .typeFacts slot.method slot.index⟩ →
      ∃ run, (keeping.answerAll visits)[k]? = some ⟨.typeFacts slot.method slot.index, run⟩ ∧
        FollowsFirst keeping visits k current slot run) ∧
    (∀ (k : Nat) (visit : Visit), visits[k]? = some visit →
      (∀ method index, visit.request ≠ .typeFacts method index) →
        (keeping.answerAll visits)[k]? = (plain.answerAll visits)[k]?) ∧
    (∀ only, (∀ visit ∈ visits, visit.store = only) →
      (keeping.answerAll visits).map Reply.result = (plain.answerAll visits).map Reply.result) := by
  intro keeping plain
  refine ⟨fun k current slot hvisit => exists_followsFirst hkeeps rfl hvisit, ?_, ?_⟩
  · intro k visit hvisit hne
    rw [getElem?_answerAll_of_ne hvisit hne, getElem?_answerAll_of_ne hvisit hne]
  · intro only hstores
    have hplain : plain.answerAll visits = visits.map Visit.plain := answerAll_of_not_keeping rfl
    rw [hplain]
    exact result_of_same_store hkeeps rfl hstores

def brokenStore : Store := fun _ => .error .outOfBounds

/-- One variable and one record, which marks the variable's type as dynamic. -/
def dynamicVariable : Snapshot where
  points := []
  scopes := [(.first, .ok [.first])]
  scopeVariables := [(.first, .ok [.first])]
  localVariables := [(.first, .ok ⟨.none, 0, "value"⟩)]
  documents := []
  recordList := .ok [.first]
  records := [(.first, .ok {
    parent := (.first : LocalVariableHandle).token
    guid := TypeFact.dynamicFlags.kind.guid
    value := [1] })]

/-- Visits to a store that works only for a while. -/
def brokenAgain (slot : Slot) : List Visit :=
  [⟨some brokenStore, .typeFacts slot.method slot.index⟩,
    ⟨some dynamicVariable.store, .typeFacts slot.method slot.index⟩,
    ⟨some brokenStore, .variableName slot.method slot.index⟩,
    ⟨some brokenStore, .typeFacts slot.method slot.index⟩]

theorem answerAll_replies_brokenAgain :
    let slot : Slot := ⟨.first, 0⟩
    let flags : ExtraTypeInfo := ⟨none, some (DynamicFlags.decode [1])⟩
    ProviderConfig.keepsTypeInfo ⟨none, true⟩ = true ∧ FirstTells (brokenAgain slot) slot 1 flags ∧
      ∃ run, (answerAll ⟨⟨none, true⟩, none, ∅⟩ (brokenAgain slot))[3]? =
          some ⟨.typeFacts slot.method slot.index, run⟩ ∧
        run.outcome = .ok flags ∧ run.lookups = [] := by
  intro slot flags
  have hfirst : FirstTells (brokenAgain slot) slot 1 flags := by
    have htold : ((Request.typeFacts .first 0).runOn (some dynamicVariable.store)).outcome =
        .ok (some ⟨none, some (DynamicFlags.decode [1])⟩) := by decide +kernel
    refine ⟨⟨_, rfl, rfl, htold⟩, ?_⟩
    intro earlier hearlier other htells
    obtain rfl : earlier = ⟨some brokenStore, .typeFacts slot.method slot.index⟩ := by
      simpa [brokenAgain] using hearlier
    cases htells.2
  obtain ⟨run, hrun, hfollows⟩ :=
    (@answerAll_replies ⟨none, true⟩ rfl none (brokenAgain slot)).1 3 _ slot rfl
  exact ⟨rfl, hfirst, run, hrun, hfollows.told 1 (by decide) _ hfirst,
    hfollows.unasked 1 (by decide) _ hfirst⟩

end PortablePdb.Provider
