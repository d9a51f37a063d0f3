import Biei.Lemmas.ReaderLoads
import Biei.Lemmas.Resolver

/-! # What a flight and a load come to -/

namespace Biei

namespace ReaderLoads

section

variable {T M : Type} {s s' : ReaderLoads T M} {caller caller' : LoadCaller T M}

/-- All flights that the caller has waited for were for its key, and are over. -/
def WaitedEnded (s : ReaderLoads T M) (caller : LoadCaller T M) : Prop :=
  ∀ f ∈ caller.waited, ∃ follower guard, s.flights.followers[f]? = some follower ∧
    s.flights.guards[follower.receiver]? = some guard ∧
    guard.key = caller.load.key ∧ guard.phase = .ended

/-- The flight that the caller waits for was led for its key by a caller that failed, and ended with what that one failed with. -/
def LeaderFailed (s : ReaderLoads T M) (caller : LoadCaller T M) (e : ReaderFlightError) : Prop :=
  ∃ f follower guard, caller.phase = .following f ∧ s.flights.followers[f]? = some follower ∧
    s.flights.guards[follower.receiver]? = some guard ∧ guard.key = caller.load.key ∧ guard.outcome = some e ∧
    ∃ leader ∈ s.callers, ∃ err, e = .capture err ∧ leader.load.key = caller.load.key ∧
      leader.phase.FailsWith follower.receiver err

/-- What a caller may return with. -/
inductive ReturnsWith (s : ReaderLoads T M) (caller : LoadCaller T M) : LoadResult M → Prop where
  | cached (value : LoadValue M) : s.caches.lookUp caller.load = some value → s.WaitedEnded caller →
      ReturnsWith s caller (.ok (some value))
  | absent : s.caches.isKnownAbsent caller.load = true → s.WaitedEnded caller → ReturnsWith s caller (.ok none)
  | leader (e : ReaderFlightError) : s.LeaderFailed caller e → ReturnsWith s caller (.error e.intoError)
  | own (g : Nat) (guard : LeaderGuard (LoadKey T) ReaderFlightError) (result : LoadResult M) :
      caller.phase = .ending g (some result) →
      s.flights.guards[g]? = some guard → guard.key = caller.load.key → guard.phase = .ended → ReturnsWith s caller result

variable [DecidableEq T] {env : PmtilesEnv M} {i : Nat}

theorem Inv.waitedEnded (h : s.Inv) (hmem : caller ∈ s.callers) : s.WaitedEnded caller := by
  intro f hf
  obtain ⟨follower, hfollower, hphase, guard, hguard, hkey⟩ := h.waited caller hmem f hf
  obtain ⟨guard', hguard', hended⟩ := h.sound.ended_of_none (List.mem_of_getElem? hfollower) hphase
  obtain rfl : guard = guard' := Option.some.inj (hguard.symm.trans hguard')
  exact ⟨follower, guard, hfollower, hguard, hkey, hended⟩

/-- What a follower read is what the leader of its flight failed with. -/
theorem Inv.leaderFailed (h : s.Inv) (hi : s.callers[i]? = some caller) {f : Nat} (hphase : caller.phase = .following f)
    {flights : FlightTable (LoadKey T) ReaderFlightError} (hf : s.flights.step (.read f) = some flights)
    {follower : Follower ReaderFlightError} {e : ReaderFlightError} (hfollower : flights.followers[f]? = some follower)
    (hv : follower.phase = .returned (some e)) : s.LeaderFailed caller e := by
  obtain ⟨guard, hguard, -, hout⟩ := (h.sound.step hf).returned (List.mem_of_getElem? hfollower) hv
  obtain ⟨old, channel, hold, -, -, rfl⟩ := FlightTable.read_inv hf
  have hreceiver : follower.receiver = old.receiver := by
    rw [getElem?_set_of_some hold] at hfollower
    rw [← Option.some.inj hfollower]
  rw [hreceiver] at hguard
  have hok := h.phase caller (List.mem_of_getElem? hi)
  rw [hphase] at hok
  obtain ⟨old', hold', -, guard', hguard', hkey⟩ := hok
  cases hold.symm.trans hold'
  cases hguard.symm.trans hguard'
  obtain ⟨leader, hleader, err, he, hlkey, hfails⟩ := h.outcomes old.receiver guard e hguard hout.symm
  exact ⟨f, old, guard, hphase, hold, hguard, hkey, hout.symm, leader, hleader, err, he, hlkey.trans hkey, hfails⟩

/-- A caller returns by a step of its own. -/
theorem Inv.returns_callerStep {step : LoadStep} (h : s.Inv) (hi : s.callers[i]? = some caller)
    (hs : s.callerStep env i caller step = some s') (hi' : s'.callers[i]? = some caller') {led : Option Nat}
      {result : LoadResult M}
    (hr : caller'.phase = .returned led result) : s.ReturnsWith caller result := by
  have hmem := List.mem_of_getElem? hi
  have hset : ∀ new, s'.callers = s.callers.set i new → new.phase = .returned led result := by
    intro new hnew
    rw [hnew, getElem?_set_of_some hi] at hi'
    rw [Option.some.inj hi', hr]
  cases step with
  | lookUp =>
    obtain ⟨-, ⟨value, hvalue, rfl⟩ | rfl⟩ := lookUp_inv hs
    · injection hset _ rfl with _ hresult
      exact hresult ▸ .cached value hvalue (h.waitedEnded hmem)
    · cases hset _ rfl
  | checkAbsent =>
    obtain ⟨-, ⟨habsent, rfl⟩ | rfl⟩ := checkAbsent_inv hs
    · injection hset _ rfl with _ hresult
      exact hresult ▸ .absent habsent (h.waitedEnded hmem)
    · cases hset _ rfl
  | elect =>
    obtain ⟨-, phase, hs, ⟨sender, -, rfl⟩ | ⟨-, rfl | rfl⟩⟩ := elect_inv hs
    · obtain ⟨flights, -, rfl⟩ := withFlights_inv hs
      cases hset _ rfl
    · obtain ⟨flights, -, rfl⟩ := withFlights_inv hs
      cases hset _ rfl
    · obtain ⟨flights, -, rfl⟩ := withFlights_inv hs
      cases hset _ rfl
  | peerAnswers reply =>
    obtain ⟨g, -, rfl | ⟨caches, loaded, rfl⟩⟩ := peerAnswers_inv hs
    · cases hset _ rfl
    · cases hset _ rfl
  | backendAnswers answer =>
    obtain ⟨g, -, caches, loaded, rfl⟩ := backendAnswers_inv hs
    cases hset _ rfl
  | complete =>
    obtain ⟨g, ⟨err, -, hs⟩ | ⟨value, -, hs⟩⟩ := complete_inv hs
    · obtain ⟨flights, -, rfl⟩ := withFlights_inv hs
      cases hset _ rfl
    · obtain ⟨flights, -, rfl⟩ := withFlights_inv hs
      cases hset _ rfl
  | finish =>
    obtain ⟨g, ending, guard, hphase, hguard, hended, rfl⟩ := finish_inv hs
    cases ending with
    | none => cases hset _ rfl
    | some loaded =>
      injection hset _ rfl with _ hresult
      have hok := h.phase caller hmem
      rw [hphase] at hok
      obtain ⟨guard', hguard', hkey, -⟩ := hok
      cases hguard.symm.trans hguard'
      exact .own g guard result (hresult ▸ hphase) hguard hkey hended
  | wake =>
    obtain ⟨f, -, hs⟩ := wake_inv hs
    obtain ⟨flights, -, rfl⟩ := withFlights_inv hs
    cases hset _ rfl
  | read =>
    obtain ⟨f, flights, follower, value, hphase, hf, hfollower, hv, ⟨e, rfl, rfl⟩ | ⟨-, rfl⟩⟩ := read_inv hs
    · injection hset _ rfl with _ hresult
      exact hresult ▸ .leader e (h.leaderFailed hi hphase hf hfollower hv)
    · cases hset _ rfl
  | cancel =>
    rcases cancel_inv hs with ⟨g, -, hs⟩ | ⟨f, -, hs⟩
    · obtain ⟨flights, -, rfl⟩ := withFlights_inv hs
      cases hset _ rfl
    · obtain ⟨flights, -, rfl⟩ := withFlights_inv hs
      cases hset _ rfl

/-- The other callers have no part in a step of one. -/
theorem callerStep_others {step : LoadStep} {j : Nat} (hs : s.callerStep env j caller step = some s') (hne : i ≠ j) :
    s'.callers[i]? = s.callers[i]? := by
  have hset : ∀ new, s'.callers = s.callers.set j new → s'.callers[i]? = s.callers[i]? := by
    intro new hnew
    rw [hnew, List.getElem?_set_ne (Ne.symm hne)]
  have hflights : ∀ {flightStep phase}, s.withFlights j caller flightStep phase = some s' → s'.callers[i]? = s.callers[i]? := by
    intro flightStep phase hw
    obtain ⟨flights, -, rfl⟩ := withFlights_inv hw
    exact hset _ rfl
  cases step with
  | lookUp =>
    obtain ⟨-, ⟨value, -, rfl⟩ | rfl⟩ := lookUp_inv hs
    · exact hset _ rfl
    · exact hset _ rfl
  | checkAbsent =>
    obtain ⟨-, ⟨-, rfl⟩ | rfl⟩ := checkAbsent_inv hs
    · exact hset _ rfl
    · exact hset _ rfl
  | elect =>
    obtain ⟨-, phase, hs, -⟩ := elect_inv hs
    exact hflights hs
  | peerAnswers reply =>
    obtain ⟨g, -, rfl | ⟨caches, loaded, rfl⟩⟩ := peerAnswers_inv hs
    · exact hset _ rfl
    · exact hset _ rfl
  | backendAnswers answer =>
    obtain ⟨g, -, caches, loaded, rfl⟩ := backendAnswers_inv hs
    exact hset _ rfl
  | complete =>
    obtain ⟨g, ⟨err, -, hs⟩ | ⟨value, -, hs⟩⟩ := complete_inv hs
    · exact hflights hs
    · exact hflights hs
  | finish =>
    obtain ⟨g, ending, guard, -, -, -, rfl⟩ := finish_inv hs
    exact hset _ rfl
  | wake =>
    obtain ⟨f, -, hs⟩ := wake_inv hs
    exact hflights hs
  | read =>
    obtain ⟨f, flights, follower, value, -, -, -, -, ⟨e, -, rfl⟩ | ⟨-, rfl⟩⟩ := read_inv hs
    · exact hset _ rfl
    · exact hset _ rfl
  | cancel =>
    rcases cancel_inv hs with ⟨g, -, hs⟩ | ⟨f, -, hs⟩
    · exact hflights hs
    · exact hflights hs

theorem Inv.returns {action : LoadAction T M} (h : s.Inv) (hs : s.step env action = some s') (hi : s.callers[i]? = some caller)
    (hnot : ∀ led result, caller.phase ≠ .returned led result) (hi' : s'.callers[i]? = some caller') {led : Option Nat}
    {result : LoadResult M} (hr : caller'.phase = .returned led result) : s.ReturnsWith caller result := by
  have hsame : s'.callers[i]? = s.callers[i]? → s.ReturnsWith caller result := by
    intro heq
    rw [heq, hi] at hi'
    cases hi'
    exact absurd hr (hnot led result)
  cases action with
  | call load =>
    cases hs
    exact hsame (by rw [hi]; exact getElem?_concat_of_some hi _)
  | move j step =>
    obtain ⟨mover, hj, hs⟩ := Option.bind_eq_some_iff.mp hs
    by_cases hne : i = j
    · subst hne
      cases hi.symm.trans hj
      exact h.returns_callerStep hi hs hi' hr
    · exact hsame (callerStep_others hs hne)
  | dropStep g step =>
    obtain ⟨flights, -, rfl⟩ := Option.map_eq_some_iff.mp hs
    exact hsame rfl
  | others caches =>
    cases hs
    exact hsame rfl

end

end ReaderLoads

namespace FlightTable

variable {κ ε : Type} [DecidableEq κ]

/-- The single flight over all runs, and the loads that are built on it: one leader a key, an entry for as long as its guard, a
drop that takes its own entry and no other, followers with what their own leader was completed with, who can return once it has
ended; and a load returns only as `ReturnsWith` says, its flights being a run of the same protocol. -/
theorem flight_protocol :
    (∀ (actions : List (FlightStep κ ε)) (t : FlightTable κ ε), machine.run empty actions = some t →
      (∀ (g g' : Nat) guard guard', t.guards[g]? = some guard → t.guards[g']? = some guard' → guard.key = guard'.key →
        guard.Holds →
        guard'.Holds → g = g') ∧
      (∀ key g, t.entries key = some g ↔ ∃ guard, t.guards[g]? = some guard ∧ guard.key = key ∧ guard.Holds) ∧
      (∀ (g : Nat) t', t.step (.remove g) = some t' → ∃ guard, t.guards[g]? = some guard ∧ t.entries guard.key = some g ∧
        t'.entries = Function.update t.entries guard.key none) ∧
      (∀ follower ∈ t.followers, ∀ value, follower.phase = .returned (some value) →
        .completeWith follower.receiver value ∈ actions) ∧
      (∀ (f : Nat) follower guard, t.followers[f]? = some follower → t.guards[follower.receiver]? = some guard →
        guard.phase ≠ .live →
        (follower.phase = .waiting ∨ follower.phase = .woken) → t.CanReturn follower.receiver f guard.outcome)) ∧
    (∀ (T M : Type) [DecidableEq T] (env : PmtilesEnv M) (s : ReaderLoads T M), (ReaderLoads.machine env).Reachable s →
      FlightTable.machine.Reachable s.flights ∧
      ∀ action s' (i : Nat) caller caller' led result, s.step env action = some s' → s.callers[i]? = some caller →
        (∀ led result, caller.phase ≠ .returned led result) → s'.callers[i]? = some caller' →
          caller'.phase = .returned led result →
        s.ReturnsWith caller result) := by
  refine ⟨fun actions t hrun => ?_, fun T M _ env s hs => ?_⟩
  · have h : t.Sound := sound_of_reachable (Machine.reachable_of_run hrun)
    refine ⟨fun g g' guard guard' hg hg' hkey hh hh' => h.unique hg hg' hkey hh hh', h.entry, fun g t' hs => (h.remove hs).2,
      fun follower hf value hv => ?_, fun f follower guard hf hg hended hphase => h.canReturn hf hg hended hphase⟩
    obtain ⟨guard, hg, -, hout⟩ := h.returned hf hv
    exact completed_of_outcome hrun hg hout.symm
  · have h := ReaderLoads.inv_of_reachable hs
    exact ⟨h.reach, fun action s' i caller caller' led result hstep hi hnot hi' hr => h.returns hstep hi hnot hi' hr⟩

end FlightTable

end Biei

/-! ## Routed tiles agree with local reads -/

namespace Biei.Storage

/-- What is guaranteed of one request at a node. -/
structure RoutesAsLocal (config : ResolverConfig) (archives : ArchiveSet) (met : Encounter) (key : TileCacheKey) (s : Resolver) :
    Prop where
  /-- What is returned is what a local read gives that does not fail. -/
  result : ∀ tile source, (routeTile config archives met key s).result = .ok (tile, source) →
    archives.getTile key.tilesetId key.tileId none = .ok tile
  /-- The candidates are contacted in their order, each at most once. -/
  inOrder : (routeTile config archives met key s).contacts.map (·.peer) <+: (routeTileCandidates config met key s).1.map (·.peer)
  /-- No peer is contacted twice when the directory does not list it twice. -/
  once : (met.peers.map (·.id)).Nodup → ((routeTile config archives met key s).contacts.map (·.peer.id)).Nodup
  notSelf : ∀ c ∈ (routeTile config archives met key s).contacts, c.peer.id ≠ config.selfNodeId
  /-- Nobody is contacted who was in backoff when the candidates were chosen. -/
  routable : ∀ c ∈ (routeTile config archives met key s).contacts, s.failures.backedOff s.now c.peer.id .tile = false
  /-- Nor who has been put there since. -/
  notBackedOff : (met.peers.map (·.id)).Nodup →
    ∀ c ∈ (routeTile config archives met key s).contacts, c.failures.backedOff c.time c.peer.id .tile = false
  /-- Nobody is contacted after a peer that did not let the request pass. -/
  passed : ∀ c ∈ (routeTile config archives met key s).contacts.dropLast, c.forward.Passes
  /-- A negative entry is for a tile that the archives lack. -/
  negative : ∀ k, (routeTile config archives met key s).node.tileCache k = some .notFound →
    archives.tile k.tilesetId k.tileId = none

/-- The contacts of a request. -/
theorem routeTile_contacts {config : ResolverConfig} {archives : ArchiveSet} {met : Encounter} {key : TileCacheKey} {s : Resolver}
    (htruth : met.Truthful archives key) :
    ContactsOf config (routeTileCandidates config met key s).1 (routeTile config archives met key s).contacts := by
  cases hcache : s.tileCache key with
  | none =>
    rw [routeTile_of_uncached hcache]
    exact routeCandidates_contacts htruth _ 0 _
  | some entry =>
    obtain ⟨source, hrouted⟩ := routeTile_of_cached config archives met hcache
    rw [hrouted]
    exact .nil config _

/-- None of them is in backoff when it is contacted. -/
theorem routeTile_backoff {config : ResolverConfig} {archives : ArchiveSet} {met : Encounter} {key : TileCacheKey} {s : Resolver}
    (htruth : met.Truthful archives key) (hpeers : (met.peers.map (·.id)).Nodup) :
    ∀ c ∈ (routeTile config archives met key s).contacts, c.failures.backedOff c.time c.peer.id .tile = false := by
  cases hcache : s.tileCache key with
  | none =>
    rw [routeTile_of_uncached hcache]
    refine routeCandidates_backoff htruth _ 0 _ (candidates_nodup hpeers) fun c hc => ?_
    have hretained := backedOff_retained s.failures s.now c.peer.id .tile
    exact hretained.trans (candidates_not_backedOff hc)
  | some entry =>
    obtain ⟨source, hrouted⟩ := routeTile_of_cached config archives met hcache
    rw [hrouted]
    exact fun c hc => (by cases hc)

/-- Among truthful peers, every request at every node that has only met such is resolved as a local read would. -/
theorem routed_tile_as_local {config : ResolverConfig} {archives : ArchiveSet} {start : Instant} {s : Resolver}
    (hs : (resolver config archives start).ReachedBy (fun _ a => a.Truthful archives) s) {met : Encounter} {key : TileCacheKey}
    (htruth : met.Truthful archives key) : RoutesAsLocal config archives met key s := by
  obtain ⟨hresult, hnode⟩ := (routeTile_agrees htruth (truthful_of_reached hs) :
    (routeTile config archives met key s).Agrees archives key)
  have hcontacts : ContactsOf config _ (routeTile config archives met key s).contacts := routeTile_contacts htruth
  have hcandidate : ∀ c ∈ (routeTile config archives met key s).contacts,
      ∃ candidate ∈ (routeTileCandidates config met key s).1, candidate.peer = c.peer := fun c hc =>
    List.mem_map.mp (hcontacts.inOrder.subset (List.mem_map_of_mem hc))
  refine ⟨fun tile source hr => ?_, hcontacts.inOrder, fun hpeers => ?_, hcontacts.notSelf, fun c hc => ?_,
    routeTile_backoff htruth,
    hcontacts.passed, fun k hk => ?_⟩
  · rw [hresult tile source hr]
    rfl
  · have hids := hcontacts.inOrder.map Peer.id
    rw [List.map_map, List.map_map] at hids
    exact (candidates_nodup hpeers).sublist hids.sublist
  · obtain ⟨candidate, hmem, hpeer⟩ := hcandidate c hc
    rw [← hpeer]
    exact candidates_not_backedOff hmem
  · exact (hnode k .notFound hk).symm

namespace RouteExample

/-- Ranks nodes by the last letter of their names. -/
def config : ResolverConfig := ⟨"entry", .new 3 512, .entryAndOwner, fun bytes => (bytes.getLastD 0).toUInt64⟩

def nowhere : Section := ⟨0, 0, by decide⟩

def archive : Archive := ⟨⟨nowhere, nowhere, nowhere, nowhere, .none, .gzip, .mvt, 0, 14⟩, fun id =>
    if id = 7 then some [1, 2] else none⟩

def archives : ArchiveSet := fun id => if id = ⟨"demo/streets"⟩ then some archive else none

def key : TileCacheKey := ⟨⟨"demo/streets"⟩, 7⟩

def node (id : String) : Peer := ⟨id, id ++ ":8000"⟩

/-- Has the tile, and whether reading the header fails here afterwards. -/
def served (failure : Option ReaderError) : Forward := ⟨second, .ok ⟨[1, 2], some .cache⟩, second, failure⟩

def refused : Forward := ⟨second, .error (.retryable "connection refused"), 0, none⟩

/-- Two peers of which the first is down. -/
def met : Encounter := ⟨[node "a", node "b"], fun n => if n = 0 then refused else served none, none, .backend⟩

/-- Both peers have the tile, but the header cannot be read. -/
def headerUnread : Encounter :=
  ⟨[node "a", node "b"], fun _ => served (some ⟨some (.overloaded "saturated"), "saturated"⟩), none, .backend⟩

/-- Two incarnations of a peer that is down. -/
def restarted : Encounter := ⟨[node "a", node "a"], fun _ => refused, none, .backend⟩

theorem served_truthful (failure : Option ReaderError) : (served failure).Truthful archives key := by
  show (archives.tile key.tilesetId key.tileId).map (·.bytes) = some [1, 2]
  decide

theorem met_truthful : met.Truthful archives key := fun n => by
  by_cases hn : n = 0
  · rw [Forward.Truthful, show met.forward n = refused from if_pos hn]
    trivial
  · rw [show met.forward n = served none from if_neg hn]
    exact served_truthful none

end RouteExample

open RouteExample in
/-- The peer that is down is left for the other, which has the tile. -/
theorem routed_tile_as_local_second :
    met.Truthful archives key ∧
      (routeTile config archives met key (resolver config archives 0).init).contacts.map (·.peer.id) = ["b", "a"] ∧
      RoutesAsLocal config archives met key (resolver config archives 0).init :=
  ⟨met_truthful, by decide +kernel, routed_tile_as_local Machine.ReachedBy.init met_truthful⟩

open RouteExample in
/-- After a peer that has the tile the next is asked when the header cannot be read here; and a peer that is listed twice is
contacted twice, although its first failure has put it in backoff. -/
theorem peer_asked_after_success :
    (headerUnread.Truthful archives key ∧
      (routeTile config archives headerUnread key (resolver config archives 0).init).contacts.map
        (fun c => (c.peer.id, c.forward.answer.toBool)) = [("b", true), ("a", true)]) ∧
    restarted.Truthful archives key ∧
      (routeTile config archives restarted key (resolver config archives 0).init).contacts.map
        (fun c => (c.peer.id, c.failures.backedOff c.time c.peer.id .tile)) = [("a", false), ("a", true)] :=
  ⟨⟨fun _ => served_truthful _, by decide +kernel⟩, fun _ => trivial, by decide +kernel⟩

end Biei.Storage
