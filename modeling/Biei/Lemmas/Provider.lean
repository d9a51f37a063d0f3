import Biei.Provider.Cache

/-!
# Lemmas on the provider cache

At most one actor leads a key, only it writes the key's entry, and what it has observed of the entry stays true until it acts on
it.
-/

namespace Biei.Provider

open Fetcher

/-! ## What a step can do -/

/-- What an actor may do: of itself, by the answer to its fetch, or by being dropped. -/
def Does (env : ProviderEnv) (s : Fetcher) (a : Actor) (m : Move) : Prop :=
  s.move a = some m ∨ (∃ answer, answerMove env a answer = some m) ∨ cancelMove a = some m

variable {env : ProviderEnv} {act : Action} {s s' : Fetcher}

/-- What a step is. -/
theorem step_cases (h : s.step env act = some s') :
    (∃ i a m, s.actors[i]? = some a ∧ Does env s a m ∧ s' = s.apply i a m) ∨
    (∃ endpoint url, s' = { s with actors := s.actors ++ [⟨Endpoint.request endpoint url, false, .looking⟩] }) ∨
    (∃ d, s' = { s with now := s.now + d }) ∨
    (∃ key, s' = { s with entries := Function.update s.entries key none }) ∨
    (∃ key, s' = { s with failedRevalidations := Function.update s.failedRevalidations key none }) := by
  cases act with
  | call endpoint url => exact Or.inr (Or.inl ⟨endpoint, url, (Option.some.inj h).symm⟩)
  | step i =>
    obtain ⟨a, ha, h⟩ := Option.bind_eq_some_iff.mp h
    obtain ⟨m, hm, rfl⟩ := Option.map_eq_some_iff.mp h
    exact Or.inl ⟨i, a, m, ha, Or.inl hm, rfl⟩
  | answer i answer =>
    obtain ⟨a, ha, h⟩ := Option.bind_eq_some_iff.mp h
    obtain ⟨m, hm, rfl⟩ := Option.map_eq_some_iff.mp h
    exact Or.inl ⟨i, a, m, ha, Or.inr (Or.inl ⟨answer, hm⟩), rfl⟩
  | cancel i =>
    obtain ⟨a, ha, h⟩ := Option.bind_eq_some_iff.mp h
    obtain ⟨m, hm, rfl⟩ := Option.map_eq_some_iff.mp h
    exact Or.inl ⟨i, a, m, ha, Or.inr (Or.inr hm), rfl⟩
  | advance d => exact Or.inr (Or.inr (Or.inl ⟨d, (Option.some.inj h).symm⟩))
  | evict key => exact Or.inr (Or.inr (Or.inr (Or.inl ⟨key, (Option.some.inj h).symm⟩)))
  | forget key => exact Or.inr (Or.inr (Or.inr (Or.inr ⟨key, (Option.some.inj h).symm⟩)))

/-- What an actor may do in each phase, with what it has seen. -/
inductive Moved (env : ProviderEnv) (s : Fetcher) (request : ProviderRequest) (background : Bool) : Phase → Move → Prop where
  | found {e : CachedProviderFetch} (h : s.entries request.key = some e) :
    Moved env s request background .looking { phase := .judging e }
  | absent (h : s.entries request.key = none) : Moved env s request background .looking { phase := .missed }
  | servedFresh {e : CachedProviderFetch} (h : e.freshness s.now = .fresh) :
    Moved env s request background (.judging e) { phase := .serving e, served := some (e, .fresh) }
  | servedStale {e : CachedProviderFetch} (h : e.freshness s.now = .stale) :
    Moved env s request background (.judging e) { phase := .asking false e, served := some (e, .stale) }
  | passedOver {e : CachedProviderFetch} (h : e.freshness s.now = .expired) :
    Moved env s request background (.judging e) { phase := .missed }
  | joined {c : Nat} (h : s.inflight.entries request.key = some c) :
    Moved env s request background .missed { phase := .following c }
  | led (h : s.inflight.entries request.key = none) :
    Moved env s request background .missed { phase := .elected, flight := some .lead }
  | rechecked {e : CachedProviderFetch} (h : s.entries request.key = some e) :
    Moved env s request background .elected { phase := .rejudging e }
  | stillAbsent (h : s.entries request.key = none) : Moved env s request background .elected { phase := .fetching none }
  | stillExpired {e : CachedProviderFetch} (h : e.freshness s.now = .expired) :
    Moved env s request background (.rejudging e) { phase := .fetching none }
  | replaced {e : CachedProviderFetch} (h : e.freshness s.now ≠ .expired) :
    Moved env s request background (.rejudging e) { phase := .yielding }
  | yielded : Moved env s request background .yielding { phase := .looking, flight := some (.drop none) }
  | answered {revalidate : Option CachedProviderRepresentation} {answer : OriginAnswer}
      {result : Except HttpError ProviderOriginOutcome}
        (h : fetchLimitedBytesUncached env request revalidate answer = some result) :
    Moved env s request background (.fetching revalidate) { phase := afterFetch background result }
  | dropped {revalidate : Option CachedProviderRepresentation} :
    Moved env s request background (.fetching revalidate) { phase := .cancelled, flight := some (.drop none) }
  | marked {error : HttpError} {e : CachedProviderFetch} (h : s.entries request.key = some e) :
    Moved env s request background (.marking error) { phase := .markJudging error e }
  | markedAbsent {error : HttpError} (h : s.entries request.key = none) :
    Moved env s request background (.marking error) { phase := .forgiving error }
  | markedStale {error : HttpError} {e : CachedProviderFetch} (h : e.freshness s.now = .stale) :
    Moved env s request background (.markJudging error e) { phase := .cooling error }
  | markedExpired {error : HttpError} {e : CachedProviderFetch} (h : e.freshness s.now = .expired) :
    Moved env s request background (.markJudging error e) { phase := .discarding error }
  | markedFresh {error : HttpError} {e : CachedProviderFetch} (h : e.freshness s.now = .fresh) :
    Moved env s request background (.markJudging error e) { phase := .forgiving error }
  | cooled {error : HttpError} :
    Moved env s request background (.cooling error)
      { phase := .completing (.error error), cooldown := some (some (s.now + revalidationFailureCooldown)) }
  | discarded {error : HttpError} :
    Moved env s request background (.discarding error) { phase := .forgiving error, entry := some none }
  | forgave {error : HttpError} :
    Moved env s request background (.forgiving error) { phase := .completing (.error error), cooldown := some none }
  | stored {outcome : ProviderOriginOutcome} :
    Moved env s request background (.storing outcome) { phase := .deciding outcome, cooldown := some none }
  | decided {outcome : ProviderOriginOutcome} {e : CachedProviderFetch} (h : outcome.entry s.now = some e) :
    Moved env s request background (.deciding outcome) { phase := .inserting outcome e }
  | decidedAgainst {outcome : ProviderOriginOutcome} (h : outcome.entry s.now = none) :
    Moved env s request background (.deciding outcome) { phase := .removing outcome }
  | inserted {outcome : ProviderOriginOutcome} {e : CachedProviderFetch} :
    Moved env s request background (.inserting outcome e)
      { phase := .completing (.ok outcome), entry := some (some e), refused := some false }
  | removed {outcome : ProviderOriginOutcome} :
    Moved env s request background (.removing outcome) { phase := .clearing outcome, entry := some none }
  | cleared {outcome : ProviderOriginOutcome} :
    Moved env s request background (.clearing outcome) { phase := .completing (.ok outcome), cooldown := some none }
  | completed {result : Except HttpError ProviderOriginOutcome} :
    Moved env s request background (.completing result)
      { phase := .returned (leaderResponse result), flight := some (.drop (some (leaderResponse result))),
        refused := refusesStorage result }
  | unhindered {led : Bool} {e : CachedProviderFetch} (h : s.failedRevalidations request.key = none) :
    Moved env s request background (.asking led e) { phase := allowed led e }
  | hindered {led : Bool} {e : CachedProviderFetch} {retryAt : Instant} (h : s.failedRevalidations request.key = some retryAt)
      (hnow : s.now < retryAt) :
    Moved env s request background (.asking led e) { phase := refusedRevalidation led e }
  | outwaited {led : Bool} {e : CachedProviderFetch} {retryAt : Instant} (h : s.failedRevalidations request.key = some retryAt)
      (hnow : ¬s.now < retryAt) :
    Moved env s request background (.asking led e) { phase := .lapsed led e }
  | lapsed {led : Bool} {e : CachedProviderFetch} :
    Moved env s request background (.lapsed led e) { phase := allowed led e, cooldown := some none }
  | outpaced {e : CachedProviderFetch} {c : Nat} (h : s.inflight.entries request.key = some c) :
    Moved env s request background (.permitted e) { phase := .serving e }
  | ledStale {e : CachedProviderFetch} (h : s.inflight.entries request.key = none) :
    Moved env s request background (.permitted e) { phase := .asking true e, flight := some .lead }
  | confirmed {e current : CachedProviderFetch} (h : s.entries request.key = some current) :
    Moved env s request background (.confirmed e) { phase := .confirmJudging e current }
  | gone {e : CachedProviderFetch} (h : s.entries request.key = none) :
    Moved env s request background (.confirmed e) { phase := .releasing e }
  | spawned {e current : CachedProviderFetch} {r : CachedProviderRepresentation} (h : current.representation = some r) :
    Moved env s request background (.confirmJudging e current) { phase := .serving e, spawned := some (.fetching (some r)) }
  | unconfirmed {e current : CachedProviderFetch} :
    Moved env s request background (.confirmJudging e current) { phase := .releasing e }
  | released {e : CachedProviderFetch} :
    Moved env s request background (.releasing e) { phase := .serving e, flight := some (.drop none) }
  | gave {e : CachedProviderFetch} : Moved env s request background (.serving e) { phase := .returned (e.intoResult s.now) }
  | received {c : Nat} {outcome : Except HttpError ProviderResource} (h : s.inflight.channels c = .closed (some outcome)) :
    Moved env s request background (.following c) { phase := .returned outcome }
  | woken {c : Nat} (h : s.inflight.channels c = .closed none) :
    Moved env s request background (.following c) { phase := .looking }
  | left {c : Nat} : Moved env s request background (.following c) { phase := .cancelled }

variable {s : Fetcher} {a : Actor} {m : Move}

/-- An actor does nothing else of itself. -/
theorem moved_of_move (h : s.move a = some m) :
    Moved env s a.request a.background a.phase m := by
  obtain ⟨request, background, phase⟩ := a
  cases phase with
  | looking =>
    simp only [Fetcher.move] at h
    split at h <;> cases h
    · exact .found ‹_›
    · exact .absent ‹_›
  | judging e =>
    simp only [Fetcher.move, judge] at h
    split at h <;> cases h
    · exact .servedFresh ‹_›
    · exact .servedStale ‹_›
    · exact .passedOver ‹_›
  | missed =>
    simp only [Fetcher.move] at h
    split at h <;> cases h
    · exact .joined ‹_›
    · exact .led ‹_›
  | elected =>
    simp only [Fetcher.move] at h
    split at h <;> cases h
    · exact .rechecked ‹_›
    · exact .stillAbsent ‹_›
  | rejudging e =>
    simp only [Fetcher.move] at h
    split at h <;> cases h
    · exact .stillExpired ‹_›
    · exact .replaced ‹_›
  | yielding => cases h; exact .yielded
  | fetching revalidate => cases h
  | marking error =>
    simp only [Fetcher.move] at h
    split at h <;> cases h
    · exact .marked ‹_›
    · exact .markedAbsent ‹_›
  | markJudging error e =>
    simp only [Fetcher.move, afterMarking] at h
    cases h
    split
    · exact .markedStale ‹_›
    · exact .markedExpired ‹_›
    · exact .markedFresh ‹_›
  | cooling error => cases h; exact .cooled
  | discarding error => cases h; exact .discarded
  | forgiving error => cases h; exact .forgave
  | storing outcome => cases h; exact .stored
  | deciding outcome =>
    simp only [Fetcher.move, afterDeciding] at h
    cases h
    split
    · exact .decided ‹_›
    · exact .decidedAgainst ‹_›
  | inserting outcome e => cases h; exact .inserted
  | removing outcome => cases h; exact .removed
  | clearing outcome => cases h; exact .cleared
  | completing result => cases h; exact .completed
  | asking led e =>
    simp only [Fetcher.move] at h
    split at h
    · cases h
      exact .unhindered ‹_›
    · split at h <;> cases h
      · exact .hindered ‹_› ‹_›
      · exact .outwaited ‹_› ‹_›
  | lapsed led e => cases h; exact .lapsed
  | permitted e =>
    simp only [Fetcher.move] at h
    split at h <;> cases h
    · exact .outpaced ‹_›
    · exact .ledStale ‹_›
  | confirmed e =>
    simp only [Fetcher.move] at h
    split at h <;> cases h
    · exact .confirmed ‹_›
    · exact .gone ‹_›
  | confirmJudging e current =>
    simp only [Fetcher.move, confirm] at h
    split at h <;> cases h
    · exact .spawned ‹_›
    · exact .unconfirmed
  | releasing e => cases h; exact .released
  | serving e => cases h; exact .gave
  | following c =>
    simp only [Fetcher.move] at h
    split at h <;> cases h
    · exact .received ‹_›
    · exact .woken ‹_›
  | returned result => cases h
  | cancelled => cases h

/-- Nor does it when it is answered or dropped. -/
theorem Does.moved (h : Does env s a m) :
    Moved env s a.request a.background a.phase m := by
  rcases h with h | ⟨answer, h⟩ | h
  · exact moved_of_move h
  · unfold answerMove at h
    split at h
    · rename_i hp
      obtain ⟨result, hr, rfl⟩ := Option.map_eq_some_iff.mp h
      rw [hp]
      exact .answered hr
    · cases h
  · unfold cancelMove at h
    split at h <;> cases h
    · rename_i hp
      rw [hp]
      exact .dropped
    · rename_i hp
      rw [hp]
      exact .left

/-- What a move says about who leads: the actor takes the lead, gives it up, keeps it, or passes it to the task it spawns. -/
inductive Move.PassesLead (s : Fetcher) (a : Actor) (m : Move) : Prop where
  | takes (hflight : m.flight = some .lead) (hnone : s.inflight.entries a.key = none) (hbefore : a.phase.leads = false)
      (hafter : m.phase.leads = true) (hspawn : m.spawned = none)
  | gives {outcome : Option (Except HttpError ProviderResource)} (hflight : m.flight = some (.drop outcome))
      (hbefore : a.phase.leads = true) (hafter : m.phase.leads = false) (hspawn : m.spawned = none)
  | keeps (hflight : m.flight = none) (hsame : m.phase.leads = a.phase.leads) (hspawn : m.spawned = none)
  | passes {p : Phase} (hflight : m.flight = none) (hbefore : a.phase.leads = true) (hafter : m.phase.leads = false)
      (hspawn : m.spawned = some p) (hleads : p.leads = true)

theorem afterFetch_leads (background : Bool) (result : Except HttpError ProviderOriginOutcome) :
    (afterFetch background result).leads = true := by
  unfold afterFetch
  split
  · split <;> rfl
  · rfl

theorem allowed_leads (led : Bool) (entry : CachedProviderFetch) : (allowed led entry).leads = led := by cases led <;> rfl

theorem refusedRevalidation_leads (led : Bool) (entry : CachedProviderFetch) : (refusedRevalidation led entry).leads = led := by
  cases led <;> rfl

/-- Whatever an actor does, the lead is taken when it is free, given up, kept or passed on. -/
theorem Does.passesLead (h : Does env s a m) : m.PassesLead s a := by
  have hm := h.moved
  obtain ⟨request, background, phase⟩ := a
  cases hm with
  | led hnone => exact .takes rfl hnone rfl rfl rfl
  | ledStale hnone => exact .takes rfl hnone rfl rfl rfl
  | yielded => exact .gives rfl rfl rfl rfl
  | dropped => exact .gives rfl rfl rfl rfl
  | completed => exact .gives rfl rfl rfl rfl
  | released => exact .gives rfl rfl rfl rfl
  | spawned _ => exact .passes rfl rfl rfl rfl rfl
  | answered _ => exact .keeps rfl (afterFetch_leads _ _) rfl
  | unhindered _ => exact .keeps rfl (allowed_leads _ _) rfl
  | lapsed => exact .keeps rfl (allowed_leads _ _) rfl
  | hindered _ _ => exact .keeps rfl (refusedRevalidation_leads _ _) rfl
  | _ => exact .keeps rfl rfl rfl

/-! ## What a move leaves -/

section Apply

variable (s : Fetcher) (i : Nat) (a : Actor) (m : Move)

theorem apply_now : (s.apply i a m).now = s.now := by
  rcases m with ⟨_, _ | _, _ | _, _ | _ | _, _, _, _⟩ <;> rfl

theorem apply_entries :
    (s.apply i a m).entries = match m.entry with | none => s.entries | some entry => Function.update s.entries a.key entry := by
  rcases m with ⟨_, _ | _, _ | _, _ | _ | _, _, _, _⟩ <;> rfl

theorem apply_inflight : (s.apply i a m).inflight = (s.moveFlight a.key m.flight).inflight := by
  rcases m with ⟨_, _ | _, _ | _, _ | _ | _, _, _, _⟩ <;> rfl

theorem apply_actors : (s.apply i a m).actors = s.actors.set i { a with phase := m.phase } ++
    (m.spawned.map fun phase => { request := a.request, background := true, phase }).toList := by
  rcases m with ⟨_, _ | _, _ | _, _ | _ | _, _, _, _⟩ <;> rfl

theorem apply_served : (s.apply i a m).served = (m.served.map fun given => Served.mk a.key given.1 given.2 s.now).toList ++
    s.served := by
  rcases m with ⟨_, _ | _, _ | _, _ | _ | _, _, _, _⟩ <;> rfl

theorem apply_refused :
    (s.apply i a m).refused = match m.refused with | none => s.refused | some b => Function.update s.refused a.key b := by
  rcases m with ⟨_, _ | _, _ | _, _ | _ | _, _, _, _⟩ <;> rfl

end Apply

/-- Who is there after a move: the actor in its new phase, the task it has spawned, or another one. -/
theorem apply_actors_cases {i j : Nat} {a b : Actor} (ha : s.actors[i]? = some a) (h : (s.apply i a m).actors[j]? = some b) :
    (j = i ∧ b = { a with phase := m.phase }) ∨
    (∃ p, m.spawned = some p ∧ b = ⟨a.request, true, p⟩) ∨
    (j ≠ i ∧ s.actors[j]? = some b) := by
  rw [apply_actors] at h
  cases hs : m.spawned with
  | none =>
    simp only [hs, Option.map_none, Option.toList_none, List.append_nil] at h
    rcases getElem?_set_cases ha h with h | h
    · exact Or.inl h
    · exact Or.inr (Or.inr h)
  | some p =>
    simp only [hs, Option.map_some, Option.toList_some] at h
    rcases getElem?_concat_cases h with ⟨-, rfl⟩ | h
    · exact Or.inr (Or.inl ⟨p, rfl, rfl⟩)
    · rcases getElem?_set_cases ha h with h | h
      · exact Or.inl h
      · exact Or.inr (Or.inr h)

/-! ## Who leads -/

/-- The actor leads the flight of the key. -/
def Actor.leadsKey (key : ProviderFetchCacheKey) (a : Actor) : Bool := a.phase.leads && a.key == key

/-- A key with a flight has exactly one leader, one without has none, and a follower waits for the flight of its key or for one
that is over. -/
structure Fetcher.Led (s : Fetcher) : Prop where
  flights : s.inflight.Wf
  leaders : ∀ key, s.actors.countP (Actor.leadsKey key) = if (s.inflight.entries key).isSome then 1 else 0
  follows : ∀ (i : Nat) (a : Actor) (c : Nat), s.actors[i]? = some a → a.phase = .following c → s.inflight.Follows a.key c

variable {i : Nat}

/-- The number of leaders after a move, from the number before. -/
theorem countP_apply (m : Move) (ha : s.actors[i]? = some a) (key : ProviderFetchCacheKey) :
    (s.apply i a m).actors.countP (Actor.leadsKey key) + (if a.phase.leads && a.key == key then 1 else 0) =
      s.actors.countP (Actor.leadsKey key) + (if m.phase.leads && a.key == key then 1 else 0) +
        (if (m.spawned.any Phase.leads) && a.key == key then 1 else 0) := by
  have hset : (s.actors.set i { a with phase := m.phase }).countP (Actor.leadsKey key) +
    (if a.phase.leads && a.key == key then 1 else 0) =
      s.actors.countP (Actor.leadsKey key) + (if m.phase.leads && a.key == key then 1 else 0) :=
    countP_set_add (Actor.leadsKey key) ha { a with phase := m.phase }
  rw [apply_actors, List.countP_append]
  cases hs : m.spawned with
  | none => simpa using hset
  | some p =>
    have hp : List.countP (Actor.leadsKey key) [Actor.mk a.request true p] = if p.leads && a.key == key then 1 else 0 :=
      List.countP_singleton
    simp only [Option.map_some, Option.toList_some, Option.any_some, hp]
    omega

theorem Fetcher.Led.init (env : ProviderEnv) (start : Instant) : (fetcher env start).init.Led where
  flights := SingleFlight.Wf.empty
  leaders _ := rfl
  follows i a c h := by
    rw [show (fetcher env start).init.actors = [] from rfl] at h
    cases h

/-- Only the one who leads a key may give up its lead. -/
theorem Fetcher.Led.some_of_leads (h : s.Led) (ha : s.actors[i]? = some a) (hl : a.phase.leads = true) :
    (s.inflight.entries a.key).isSome = true := by
  have hpos : 0 < s.actors.countP (Actor.leadsKey a.key) :=
    List.countP_pos_iff.mpr ⟨a, List.mem_of_getElem? ha, by simp [Actor.leadsKey, hl]⟩
  rw [h.leaders a.key] at hpos
  split at hpos
  · assumption
  · exact absurd hpos (Nat.lt_irrefl 0)

/-- Two leaders of one key are one. -/
theorem Fetcher.Led.unique (h : s.Led) {i j : Nat} {a b : Actor} (ha : s.actors[i]? = some a) (hb : s.actors[j]? = some b)
    (hla : a.phase.leads = true) (hlb : b.phase.leads = true) (hkey : a.key = b.key) : i = j := by
  by_contra hij
  have htwo : 2 ≤ s.actors.countP (Actor.leadsKey a.key) :=
    two_le_countP hij ha hb (by simp [Actor.leadsKey, hla]) (by simp [Actor.leadsKey, hlb, hkey])
  rw [h.leaders a.key] at htwo
  split at htwo <;> omega

/-- A move leaves the flights of other keys alone. -/
theorem moveFlight_entries_of_ne (s : Fetcher) {k key : ProviderFetchCacheKey} (hk : key ≠ k) (f : Option FlightMove) :
    (s.moveFlight k f).inflight.entries key = s.inflight.entries key := by
  rcases f with _ | _ | outcome
  · rfl
  · exact Function.update_of_ne hk _ _
  · show (s.inflight.dropGuard k outcome).entries key = _
    rw [SingleFlight.dropGuard_entries, Function.update_of_ne hk]

/-- Whose flight is in the map after a move. -/
theorem Move.PassesLead.leaders (hp : m.PassesLead s a) (h : s.Led) (ha : s.actors[i]? = some a) (key : ProviderFetchCacheKey) :
    (s.apply i a m).actors.countP (Actor.leadsKey key) = if ((s.apply i a m).inflight.entries key).isSome then 1 else 0 := by
  have hcount := countP_apply m ha key
  rw [h.leaders key] at hcount
  rw [apply_inflight]
  by_cases hk : a.key = key
  · subst hk
    simp only [beq_self_eq_true, Bool.and_true] at hcount
    cases hp with
    | takes hflight hnone hbefore hafter hspawn =>
      have hsome : ((s.moveFlight a.key m.flight).inflight.entries a.key).isSome = true := by
        rw [hflight]
        show (Function.update s.inflight.entries a.key (some s.inflight.nextChannel) a.key).isSome = true
        rw [Function.update_self]
        rfl
      simpa [hnone, hbefore, hafter, hspawn, hsome] using hcount
    | gives hflight hbefore hafter hspawn =>
      have hsome := h.some_of_leads ha hbefore
      have hnone : (s.moveFlight a.key m.flight).inflight.entries a.key = none := by
        rw [hflight]
        show (s.inflight.dropGuard a.key _).entries a.key = none
        rw [SingleFlight.dropGuard_entries, Function.update_self]
      simpa [hsome, hnone, hbefore, hafter, hspawn] using hcount
    | keeps hflight hsame hspawn =>
      have hkept : (s.moveFlight a.key m.flight).inflight = s.inflight := by rw [hflight]; rfl
      rw [hkept]
      simpa [hsame, hspawn] using hcount
    | passes hflight hbefore hafter hspawn hleads =>
      have hkept : (s.moveFlight a.key m.flight).inflight = s.inflight := by rw [hflight]; rfl
      rw [hkept]
      simpa [hbefore, hafter, hspawn, hleads] using hcount
  · rw [moveFlight_entries_of_ne s (Ne.symm hk)]
    simpa [hk] using hcount

/-- The flights stay as they should be. -/
theorem Move.PassesLead.wf (hp : m.PassesLead s a) (h : s.inflight.Wf) :
    (s.apply i a m).inflight.Wf := by
  rw [apply_inflight]
  cases hp with
  | takes hflight _ _ _ _ =>
    rw [hflight]
    exact h.lead a.key
  | gives hflight _ _ _ =>
    rw [hflight]
    exact h.dropGuard a.key _
  | keeps hflight _ _ =>
    rw [hflight]
    exact h
  | passes hflight _ _ _ _ =>
    rw [hflight]
    exact h

variable {key : ProviderFetchCacheKey}

/-- Whoever follows goes on following. -/
theorem Move.PassesLead.follows (hp : m.PassesLead s a)
    {c : Nat} (h : s.inflight.Follows key c) : (s.apply i a m).inflight.Follows key c := by
  rw [apply_inflight]
  cases hp with
  | takes hflight hnone _ _ _ =>
    rw [hflight]
    exact h.lead hnone
  | gives hflight _ _ _ =>
    rw [hflight]
    exact h.dropGuard _
  | keeps hflight _ _ =>
    rw [hflight]
    exact h
  | passes hflight _ _ _ _ =>
    rw [hflight]
    exact h

/-- Whoever starts to follow follows the flight of its key. -/
theorem Does.following (h : Does env s a m) {c : Nat} (hc : m.phase = .following c) : s.inflight.entries a.key = some c := by
  have hm := h.moved
  obtain ⟨request, background, phase⟩ := a
  cases hm with
  | joined hsome =>
    cases hc
    exact hsome
  | answered _ =>
    unfold afterFetch at hc
    split at hc
    · split at hc <;> cases hc
    · cases hc
  | unhindered _ =>
    unfold allowed at hc
    split at hc <;> cases hc
  | hindered _ _ =>
    unfold refusedRevalidation at hc
    split at hc <;> cases hc
  | lapsed =>
    unfold allowed at hc
    split at hc <;> cases hc
  | _ => cases hc

variable {p : Phase}

/-- A task that is spawned fetches. -/
theorem Does.spawned (h : Does env s a m)
    (hp : m.spawned = some p) : ∃ e current r, a.phase = .confirmJudging e current ∧ current.representation = some r ∧
      p = .fetching (some r) := by
  have hm := h.moved
  obtain ⟨request, background, phase⟩ := a
  cases hm with
  | spawned hr =>
    cases hp
    exact ⟨_, _, _, rfl, hr, rfl⟩
  | _ => cases hp

/-- One step keeps the leaders. -/
theorem Fetcher.Led.step (h : s.Led) (hstep : s.step env act = some s') : s'.Led := by
  rcases step_cases hstep with ⟨i, a, m, ha, hd, rfl⟩ | ⟨endpoint, url, rfl⟩ | ⟨d, rfl⟩ | ⟨key, rfl⟩ | ⟨key, rfl⟩
  · refine ⟨hd.passesLead.wf h.flights, hd.passesLead.leaders h ha, fun j b c hb hc => ?_⟩
    rcases apply_actors_cases ha hb with ⟨-, rfl⟩ | ⟨p, hp, rfl⟩ | ⟨-, hb⟩
    · exact hd.passesLead.follows (h.flights.follows (hd.following hc))
    · obtain ⟨e, current, r, -, -, rfl⟩ := hd.spawned hp
      cases hc
    · exact hd.passesLead.follows (h.follows j b c hb hc)
  · refine ⟨h.flights, fun key => ?_, fun j b c hb hc => ?_⟩
    · rw [List.countP_append, h.leaders key]
      rfl
    · rcases getElem?_concat_cases hb with ⟨-, rfl⟩ | hb
      · cases hc
      · exact h.follows j b c hb hc
  · exact ⟨h.flights, h.leaders, h.follows⟩
  · exact ⟨h.flights, h.leaders, h.follows⟩
  · exact ⟨h.flights, h.leaders, h.follows⟩

variable {start : Instant}

/-- In every run, each key has at most one leader. -/
theorem led_of_reachable (h : (fetcher env start).Reachable s) : s.Led :=
  h.invariant (Fetcher.Led.init env start) fun _ _ _ hi hs => hi.step hs

/-! ## What becomes of entries -/

/-- What a move writes to the entry of the actor's key. -/
inductive Move.Writes (a : Actor) (m : Move) : Prop where
  | nothing (hentry : m.entry = none)
  | inserts {outcome : ProviderOriginOutcome} {e : CachedProviderFetch} (hphase : a.phase = .inserting outcome e)
      (hentry : m.entry = some (some e)) (hafter : m.phase = .completing (.ok outcome)) (hrefused : m.refused = some false)
  | discards {error : HttpError} (hphase : a.phase = .discarding error) (hentry : m.entry = some none)
      (hafter : m.phase = .forgiving error) (hrefused : m.refused = none)
  | removes {outcome : ProviderOriginOutcome} (hphase : a.phase = .removing outcome) (hentry : m.entry = some none)
      (hafter : m.phase = .clearing outcome) (hrefused : m.refused = none)

theorem Does.writes (h : Does env s a m) : m.Writes a := by
  have hm := h.moved
  obtain ⟨request, background, phase⟩ := a
  cases hm with
  | inserted => exact .inserts rfl rfl rfl rfl
  | discarded => exact .discards rfl rfl rfl rfl
  | removed => exact .removes rfl rfl rfl rfl
  | _ => exact .nothing rfl

/-- Only a leader writes. -/
theorem Move.Writes.leads (h : m.Writes a) : m.entry = none ∨ a.phase.leads = true := by
  cases h with
  | nothing hentry => exact Or.inl hentry
  | inserts hphase _ _ _ => exact Or.inr (by rw [hphase]; rfl)
  | discards hphase _ _ _ => exact Or.inr (by rw [hphase]; rfl)
  | removes hphase _ _ _ => exact Or.inr (by rw [hphase]; rfl)

/-- The entries that an actor holds a copy of. -/
def Phase.held : Phase → List CachedProviderFetch
  | .judging e => [e]
  | .rejudging e => [e]
  | .markJudging _ e => [e]
  | .inserting _ e => [e]
  | .asking _ e => [e]
  | .lapsed _ e => [e]
  | .permitted e => [e]
  | .confirmed e => [e]
  | .confirmJudging e current => [e, current]
  | .releasing e => [e]
  | .serving e => [e]
  | _ => []

variable {e : CachedProviderFetch}

/-- Where an entry comes from that an actor holds after a move: it held it before, it read it from the map, or it made it. -/
theorem Does.held (h : Does env s a m) (he : e ∈ m.phase.held) :
    e ∈ a.phase.held ∨ s.entries a.key = some e ∨ ∃ outcome, a.phase = .deciding outcome ∧ outcome.entry s.now = some e := by
  have hm := h.moved
  obtain ⟨request, background, phase⟩ := a
  cases hm with
  | found hsome => exact Or.inr (Or.inl (by rw [List.mem_singleton.mp he]; exact hsome))
  | rechecked hsome => exact Or.inr (Or.inl (by rw [List.mem_singleton.mp he]; exact hsome))
  | marked hsome => exact Or.inr (Or.inl (by rw [List.mem_singleton.mp he]; exact hsome))
  | decided hsome => exact Or.inr (Or.inr ⟨_, rfl, by rw [List.mem_singleton.mp he]; exact hsome⟩)
  | confirmed hsome =>
    rcases List.mem_cons.mp he with rfl | he
    · exact Or.inl (List.mem_singleton_self _)
    · exact Or.inr (Or.inl (by rw [List.mem_singleton.mp he]; exact hsome))
  | answered _ =>
    unfold afterFetch at he
    split at he
    · split at he <;> cases he
    · cases he
  | unhindered _ =>
    refine Or.inl ?_
    unfold allowed at he
    split at he <;> exact he
  | lapsed =>
    refine Or.inl ?_
    unfold allowed at he
    split at he <;> exact he
  | hindered _ _ =>
    refine Or.inl ?_
    unfold refusedRevalidation at he
    split at he <;> exact he
  | servedFresh _ => exact Or.inl he
  | servedStale _ => exact Or.inl he
  | outwaited _ _ => exact Or.inl he
  | outpaced _ => exact Or.inl he
  | ledStale _ => exact Or.inl he
  | gone _ => exact Or.inl he
  | spawned _ => exact Or.inl (List.mem_cons.mpr (Or.inl (List.mem_singleton.mp he)))
  | unconfirmed => exact Or.inl (List.mem_cons.mpr (Or.inl (List.mem_singleton.mp he)))
  | released => exact Or.inl he
  | _ => cases he

/-- What is served was judged not to be expired. -/
theorem Does.served (h : Does env s a m) {freshness : Freshness} (hs : m.served = some (e, freshness)) :
    e ∈ a.phase.held ∧ e.freshness s.now = freshness ∧ freshness ≠ .expired := by
  have hm := h.moved
  obtain ⟨request, background, phase⟩ := a
  cases hm with
  | servedFresh hf =>
    cases hs
    exact ⟨List.mem_singleton_self _, hf, nofun⟩
  | servedStale hf =>
    cases hs
    exact ⟨List.mem_singleton_self _, hf, nofun⟩
  | _ => cases hs

/-- Every entry there is, in the map or held by an actor, has a property that may depend on the time and the key. -/
structure Fetcher.Everywhere (P : Instant → ProviderFetchCacheKey → CachedProviderFetch → Prop) (s : Fetcher) : Prop where
  entries : ∀ key e, s.entries key = some e → P s.now key e
  held : ∀ (i : Nat) (a : Actor) (e : CachedProviderFetch), s.actors[i]? = some a → e ∈ a.phase.held → P s.now a.key e

section Everywhere

variable {P : Instant → ProviderFetchCacheKey → CachedProviderFetch → Prop}

theorem Fetcher.Everywhere.init (env : ProviderEnv) (start : Instant) : (fetcher env start).init.Everywhere P where
  entries key e h := by cases h
  held i a e h := by
    rw [show (fetcher env start).init.actors = [] from rfl] at h
    cases h

/-- A property that lasts holds everywhere when it holds of what is made. -/
theorem Fetcher.Everywhere.step {env : ProviderEnv} {s s' : Fetcher} {act : Action} (h : s.Everywhere P)
    (hlasts : ∀ t d key e, P t key e → P (t + d) key e)
    (hmade : ∀ (i : Nat) (a : Actor) (outcome : ProviderOriginOutcome) (e : CachedProviderFetch), s.actors[i]? = some a →
      a.phase = .deciding outcome → outcome.entry s.now = some e → P s.now a.key e)
    (hstep : s.step env act = some s') : s'.Everywhere P := by
  rcases step_cases hstep with ⟨i, a, m, ha, hd, rfl⟩ | ⟨endpoint, url, rfl⟩ | ⟨d, rfl⟩ | ⟨key, rfl⟩ | ⟨key, rfl⟩
  · refine ⟨fun key e he => ?_, fun j b e hb he => ?_⟩
    · rw [apply_now]
      rw [apply_entries] at he
      cases hd.writes with
      | nothing hentry =>
        rw [hentry] at he
        exact h.entries key e he
      | inserts hphase hentry _ _ =>
        rw [hentry] at he
        rcases update_eq_some he with ⟨hkey, hnew⟩ | ⟨-, hold⟩
        · cases hnew
          rw [hkey]
          exact h.held i a _ ha (by rw [hphase]; exact List.mem_singleton_self _)
        · exact h.entries key e hold
      | discards _ hentry _ _ =>
        rw [hentry] at he
        exact h.entries key e (update_none_eq_some he).2
      | removes _ hentry _ _ =>
        rw [hentry] at he
        exact h.entries key e (update_none_eq_some he).2
    · rw [apply_now]
      rcases apply_actors_cases ha hb with ⟨-, rfl⟩ | ⟨p, hp, rfl⟩ | ⟨-, hb⟩
      · rcases hd.held he with he | he | ⟨outcome, hp, he⟩
        · exact h.held i a e ha he
        · exact h.entries a.key e he
        · exact hmade i a outcome e ha hp he
      · obtain ⟨_, _, r, -, -, rfl⟩ := hd.spawned hp
        cases he
      · exact h.held j b e hb he
  · refine ⟨h.entries, fun j b e hb he => ?_⟩
    rcases getElem?_concat_cases hb with ⟨-, rfl⟩ | hb
    · cases he
    · exact h.held j b e hb he
  · exact ⟨fun key e he => hlasts _ d _ _ (h.entries key e he), fun j b e hb he => hlasts _ d _ _ (h.held j b e hb he)⟩
  · exact ⟨fun k e he => h.entries k e (update_none_eq_some he).2, h.held⟩
  · exact ⟨h.entries, h.held⟩

end Everywhere

/-! ## Windows -/

/-- An entry's deadlines are those of what it was stored from, at the time it was stored. -/
def CachedProviderFetch.Timed (now : Instant) : CachedProviderFetch → Prop
  | .found e =>
    e.storedAt ≤ now ∧ e.freshUntil = e.storedAt + (e.policy.fresh - e.ageAtInsert) ∧
      e.staleUntil = e.storedAt + (e.policy.fresh + e.policy.swr - e.ageAtInsert)
  | .negative e =>
    e.storedAt ≤ now ∧ e.freshUntil = e.storedAt + (e.negative.policy.fresh - e.negative.initialAge) ∧ e.staleUntil = e.freshUntil

variable {now : Instant}

theorem CachedProviderFetch.Timed.lasts (h : e.Timed now) (d : Duration) : e.Timed (now + d) := by
  cases e with
  | found e => exact ⟨Nat.le_add_right_of_le h.1, h.2⟩
  | negative e => exact ⟨Nat.le_add_right_of_le h.1, h.2⟩

/-- What `put_found` and `put_negative` write. -/
theorem ProviderOriginOutcome.timed_entry {outcome : ProviderOriginOutcome} (h : outcome.entry now = some e) : e.Timed now := by
  unfold ProviderOriginOutcome.entry at h
  split at h
  · cases h
  · split at h <;> cases h
    · exact ⟨Nat.le_refl now, rfl, rfl⟩
    · exact ⟨Nat.le_refl now, rfl, rfl⟩
    · exact ⟨Nat.le_refl now, rfl, rfl⟩

/-- What was given to a caller was inside its window then. -/
def Served.Timely (v : Served) : Prop :=
  match v.entry with
  | .found e =>
    e.storedAt ≤ v.time ∧ e.ageAtInsert + (v.time - e.storedAt) < e.policy.fresh + e.policy.swr ∧
      (v.freshness = .fresh → e.ageAtInsert + (v.time - e.storedAt) < e.policy.fresh)
  | .negative e =>
    e.storedAt ≤ v.time ∧ v.freshness = .fresh ∧ e.negative.initialAge + (v.time - e.storedAt) < e.negative.policy.fresh

/-- The freshness of an entry, from its deadlines. -/
theorem freshness_eq_fresh (h : e.freshness now = .fresh) : now < e.freshUntil := by
  unfold CachedProviderFetch.freshness at h
  split at h
  · assumption
  · split at h <;> cases h

theorem freshness_ne_expired (h : e.freshness now ≠ .expired) :
    now < e.freshUntil ∨ (¬now < e.freshUntil ∧ now < e.staleUntil) := by
  unfold CachedProviderFetch.freshness at h
  split at h
  · exact Or.inl ‹_›
  · split at h
    · exact Or.inr ⟨‹_›, ‹_›⟩
    · exact absurd rfl h

/-- An expired entry stays expired. -/
theorem expired_lasts (h : e.freshness now = .expired) (d : Duration) :
    e.freshness (now + d) = .expired := by
  unfold CachedProviderFetch.freshness at h ⊢
  split at h
  · cases h
  · split at h
    · cases h
    · rw [if_neg (by lia), if_neg (by lia)]

/-- What is served by its deadlines is served inside its window. -/
theorem CachedProviderFetch.Timed.timely (h : e.Timed now) {freshness : Freshness}
    (hf : e.freshness now = freshness) (hne : freshness ≠ .expired) (key : ProviderFetchCacheKey) :
    (Served.mk key e freshness now).Timely := by
  subst hf
  have hwindow := freshness_ne_expired hne
  cases e with
  | found e =>
    obtain ⟨hat, hfresh, hstale⟩ := h
    simp only [CachedProviderFetch.freshUntil, CachedProviderFetch.staleUntil, hfresh, hstale] at hwindow
    refine ⟨hat, by show e.ageAtInsert + (now - e.storedAt) < _; lia, fun hf => ?_⟩
    have hlt : now < e.freshUntil := freshness_eq_fresh hf
    show e.ageAtInsert + (now - e.storedAt) < _
    lia
  | negative e =>
    obtain ⟨hat, hfresh, hstale⟩ := h
    simp only [CachedProviderFetch.freshUntil, CachedProviderFetch.staleUntil, hstale] at hwindow
    have hlt : now < e.freshUntil := by lia
    refine ⟨hat, if_pos hlt, ?_⟩
    show e.negative.initialAge + (now - e.storedAt) < _
    lia

/-! ## What leaders have observed -/

/-- What a leader knows of the entry of its key until it acts on it. -/
def Phase.Noted (now : Instant) (entry : Option CachedProviderFetch) : Phase → Prop
  | .markJudging _ e => ∀ e', entry = some e' → e' = e
  | .discarding _ => ∀ e, entry = some e → e.freshness now = .expired
  | .inserting outcome _ => refusesStorage (.ok outcome) = none
  | .clearing _ => entry = none
  | .completing result => refusesStorage result = some true → entry = none
  | _ => True

theorem Phase.noted_of_not_leads (h : p.leads = false) (now : Instant) (entry : Option CachedProviderFetch) :
    p.Noted now entry := by
  cases p <;> trivial

/-- Time changes nothing that a leader has observed. -/
theorem Phase.Noted.lasts {entry : Option CachedProviderFetch} (h : p.Noted now entry) (d : Duration) :
    p.Noted (now + d) entry := by
  cases p with
  | discarding error => exact fun e he => expired_lasts (h e he) d
  | _ => exact h

/-- Neither does an eviction. -/
theorem Phase.Noted.evicted {entry : Option CachedProviderFetch} (h : p.Noted now entry) :
    p.Noted now none := by
  cases p with
  | markJudging error e => exact fun _ he => by cases he
  | discarding error => exact fun _ he => by cases he
  | inserting outcome e => exact h
  | clearing outcome => rfl
  | completing result => exact fun _ => rfl
  | _ => trivial

theorem apply_entries_self (s : Fetcher) (i : Nat) (a : Actor) (m : Move) :
    (s.apply i a m).entries a.key = m.entry.getD (s.entries a.key) := by
  rw [apply_entries]
  cases m.entry with
  | none => rfl
  | some entry => exact Function.update_self _ _ _

theorem apply_entries_of_ne (s : Fetcher) (i : Nat) (a : Actor) (m : Move) (h : key ≠ a.key) :
    (s.apply i a m).entries key = s.entries key := by
  rw [apply_entries]
  cases m.entry with
  | none => rfl
  | some entry => exact Function.update_of_ne h _ _

/-- An outcome that is stored is one that may be. -/
theorem refusesStorage_of_entry {outcome : ProviderOriginOutcome}
    (h : outcome.entry now = some e) : refusesStorage (.ok outcome) = none := by
  unfold ProviderOriginOutcome.entry at h
  unfold refusesStorage
  split at h
  · cases h
  · rename_i hno
    exact if_neg hno

/-- What a leader observes is so, and stays so while it is the one who acts. -/
theorem Does.noted (h : Does env s a m)
    (hn : a.phase.Noted s.now (s.entries a.key)) : m.phase.Noted s.now (m.entry.getD (s.entries a.key)) := by
  have hm := h.moved
  obtain ⟨request, background, phase⟩ := a
  cases hm with
  | marked hsome =>
    intro e' he'
    exact Option.some.inj (he'.symm.trans hsome)
  | markedExpired hexpired =>
    intro e' he'
    rw [hn e' he']
    exact hexpired
  | decided hsome => exact refusesStorage_of_entry hsome
  | inserted =>
    intro hrefuses
    rw [hn] at hrefuses
    cases hrefuses
  | removed => rfl
  | cleared => exact fun _ => hn
  | cooled => exact fun hrefuses => by cases hrefuses
  | forgave => exact fun hrefuses => by cases hrefuses
  | answered _ =>
    unfold afterFetch
    split
    · split
      · trivial
      · exact fun hrefuses => by cases hrefuses
    · trivial
  | unhindered _ => unfold allowed; split <;> trivial
  | lapsed => unfold allowed; split <;> trivial
  | hindered _ _ => unfold refusedRevalidation; split <;> trivial
  | _ => trivial

/-- The leaders' observations hold, and a key whose latest result may not be kept has no entry. -/
structure Fetcher.Noting (s : Fetcher) : Prop where
  noted : ∀ (i : Nat) (a : Actor), s.actors[i]? = some a → a.phase.Noted s.now (s.entries a.key)
  refused : ∀ key, s.refused key = true → s.entries key = none

theorem Fetcher.Noting.init (env : ProviderEnv) (start : Instant) : (fetcher env start).init.Noting where
  noted i a h := by
    rw [show (fetcher env start).init.actors = [] from rfl] at h
    cases h
  refused key h := by cases h

/-- What a move notes about storing: a leader whose result may not be kept completes it, a result is stored, or nothing. -/
theorem Does.refused (h : Does env s a m) :
    (∃ result, a.phase = .completing result ∧ m.refused = refusesStorage result ∧ m.entry = none) ∨
    m.refused = some false ∨ (m.refused = none ∧ ∀ o, m.entry = some o → o = none) := by
  have hm := h.moved
  obtain ⟨request, background, phase⟩ := a
  cases hm with
  | completed => exact Or.inl ⟨_, rfl, rfl, rfl⟩
  | inserted => exact Or.inr (Or.inl rfl)
  | discarded => exact Or.inr (Or.inr ⟨rfl, fun o ho => (Option.some.inj ho).symm⟩)
  | removed => exact Or.inr (Or.inr ⟨rfl, fun o ho => (Option.some.inj ho).symm⟩)
  | _ => exact Or.inr (Or.inr ⟨rfl, fun o ho => by cases ho⟩)

/-- A key is refused after a move only if it has no entry then. -/
theorem Does.refused_none (h : Does env s a m) (hn : s.Noting) (ha : s.actors[i]? = some a)
    (hr : (s.apply i a m).refused key = true) :
    (s.apply i a m).entries key = none := by
  rw [apply_refused] at hr
  by_cases hk : key = a.key
  · subst hk
    rw [apply_entries_self]
    rcases h.refused with ⟨result, hp, hmr, hme⟩ | hmr | ⟨hmr, hme⟩
    · rw [hme, Option.getD_none]
      cases hres : refusesStorage result with
      | none =>
        rw [hmr, hres] at hr
        exact hn.refused a.key hr
      | some b =>
        rw [hmr, hres] at hr
        have hb : b = true := by simpa using hr
        have hnoted := hn.noted i a ha
        rw [hp] at hnoted
        exact hnoted (hb ▸ hres)
    · rw [hmr] at hr
      simp at hr
    · rw [hmr] at hr
      cases he : m.entry with
      | none => exact hn.refused a.key hr
      | some o => exact hme o he
  · rw [apply_entries_of_ne s i a m hk]
    refine hn.refused key ?_
    cases hm : m.refused with
    | none =>
      rw [hm] at hr
      exact hr
    | some b =>
      rw [hm] at hr
      exact (Function.update_of_ne hk b s.refused).symm.trans hr

/-- One step keeps the observations. -/
theorem Fetcher.Noting.step (h : s.Noting) (hl : s.Led) (hstep : s.step env act = some s') : s'.Noting := by
  rcases step_cases hstep with ⟨i, a, m, ha, hd, rfl⟩ | ⟨endpoint, url, rfl⟩ | ⟨d, rfl⟩ | ⟨key, rfl⟩ | ⟨key, rfl⟩
  · refine ⟨fun j b hb => ?_, fun key hr => hd.refused_none h ha hr⟩
    rw [apply_now]
    rcases apply_actors_cases ha hb with ⟨-, rfl⟩ | ⟨p, hp, rfl⟩ | ⟨hij, hb⟩
    · show m.phase.Noted s.now ((s.apply i a m).entries a.key)
      rw [apply_entries_self]
      exact hd.noted (h.noted i a ha)
    · obtain ⟨_, _, r, -, -, rfl⟩ := hd.spawned hp
      trivial
    · by_cases hk : b.key = a.key
      · rcases hd.writes.leads with hentry | hleads
        · rw [hk, apply_entries_self, hentry, Option.getD_none, ← hk]
          exact h.noted j b hb
        · cases hlb : b.phase.leads with
          | false => exact Phase.noted_of_not_leads hlb _ _
          | true => exact absurd (hl.unique hb ha hlb hleads hk) hij
      · rw [apply_entries_of_ne s i a m hk]
        exact h.noted j b hb
  · refine ⟨fun j b hb => ?_, h.refused⟩
    rcases getElem?_concat_cases hb with ⟨-, rfl⟩ | hb
    · trivial
    · exact h.noted j b hb
  · exact ⟨fun j b hb => (h.noted j b hb).lasts d, h.refused⟩
  · refine ⟨fun j b hb => ?_, fun k hr => ?_⟩
    · show b.phase.Noted s.now (Function.update s.entries key none b.key)
      by_cases hk : b.key = key
      · rw [hk, Function.update_self]
        exact (h.noted j b hb).evicted
      · rw [Function.update_of_ne hk]
        exact h.noted j b hb
    · show Function.update s.entries key none k = none
      by_cases hk : k = key
      · rw [hk, Function.update_self]
      · rw [Function.update_of_ne hk]
        exact h.refused k hr
  · exact ⟨h.noted, h.refused⟩

/-- In every run, the leaders' observations hold. -/
theorem noting_of_reachable (h : (fetcher env start).Reachable s) : s.Noting :=
  (h.invariant (I := fun s => s.Led ∧ s.Noting) ⟨Fetcher.Led.init env start, Fetcher.Noting.init env start⟩
    fun _ _ _ hi hs => ⟨hi.1.step hs, hi.2.step hi.1 hs⟩).2

/-! ## What is served -/

/-- Every entry has the deadlines of what it was stored from, and what was served was inside them. -/
structure Fetcher.Timely (s : Fetcher) : Prop where
  timed : s.Everywhere fun now _ e => e.Timed now
  served : ∀ v ∈ s.served, v.Timely

theorem Fetcher.Timely.step (h : s.Timely) (hstep : s.step env act = some s') :
    s'.Timely := by
  refine ⟨h.timed.step (fun _ d _ _ ht => ht.lasts d) (fun _ _ _ _ _ _ he => ProviderOriginOutcome.timed_entry he) hstep, ?_⟩
  rcases step_cases hstep with ⟨i, a, m, ha, hd, rfl⟩ | ⟨endpoint, url, rfl⟩ | ⟨d, rfl⟩ | ⟨key, rfl⟩ | ⟨key, rfl⟩
  · intro v hv
    rw [apply_served] at hv
    rcases List.mem_append.mp hv with hv | hv
    · obtain ⟨given, hgiven, rfl⟩ := Option.map_eq_some_iff.mp (Option.mem_toList.mp hv)
      have hs : m.served = some (given.1, given.2) := hgiven
      obtain ⟨he, hf, hne⟩ := hd.served hs
      exact (h.timed.held i a given.1 ha he).timely hf hne a.key
    · exact h.served v hv
  all_goals exact h.served

theorem timely_of_reachable (h : (fetcher env start).Reachable s) : s.Timely :=
  h.invariant ⟨Fetcher.Everywhere.init env start, fun _ hv => by cases hv⟩ fun _ _ _ hi hs => hi.step hs

end Biei.Provider
