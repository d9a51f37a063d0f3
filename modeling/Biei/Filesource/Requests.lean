import Biei.Filesource.Singleflight

/-!
# Requests to the network file source

`NetworkFileSource::request`: a request whose resource is fresh in the shared cache waits before it is refreshed, and what an
origin said is missing is remembered for a short while. How many attempts a fetch makes is left open, and so is what either cache
evicts. Requests overlap freely, and each look at a cache is a step of its own.
-/

namespace Biei.Filesource

/-! ## Deferred refreshes -/

def maxRefreshDeferral : Duration := 300 * second

structure RefreshDeferral where
  wait : Duration
  capped : Bool
deriving DecidableEq

/-- `refresh_deferral`. -/
def refreshDeferral (now expires : SystemTime) (minimumUpdateInterval : Duration) : RefreshDeferral :=
  let requested := max ((durationSince expires now).getD 0) minimumUpdateInterval
  ⟨min requested maxRefreshDeferral, decide (maxRefreshDeferral < requested)⟩

/-- `complete_deferred_refresh`. -/
def completeDeferredRefresh (deferral : RefreshDeferral) (currentExpires : Option SystemTime) : Option Response :=
  if !deferral.capped && currentExpires.isNone then none else some { Response.unmodified with expires := currentExpires }

/-! ## Requests -/

structure NegativeCacheEntry where
  response : Response
  expiresAt : SystemTime
  /-- When it was entered. -/
  enteredAt : SystemTime
  /-- How many responses of `200` there had been for the key when its own response was received. -/
  successes : Nat
deriving DecidableEq

/-- Where a request stands. -/
inductive RequestPhase where
  | entered
  /-- Asleep; `served` is what the `Database` source answers when the request begins. -/
  | deferred (deferral : RefreshDeferral) (wakesAt : SystemTime) (served : Response)
  /-- Before the look at the negative cache; what the shared cache had at the last look, and when that was. -/
  | passed (lookedAt : SystemTime) (entry : Option Response)
  /-- In `fetch_coalesced`. -/
  | coalesced
  /-- Completed after the wait; what the shared cache has then. -/
  | unmodified (response served : Response) (entry : Option Response)
  /-- Answered from the negative cache. -/
  | refused (negative : NegativeCacheEntry) (answeredAt lookedAt : SystemTime) (entry : Option Response)
  | fetched (response : Response)
  | cancelled
deriving DecidableEq

structure PendingRequest where
  request : ResourceRequest
  minimumUpdateInterval : Duration
  phase : RequestPhase
  /-- How many responses of `200` there had been for its key when it began. -/
  successes : Nat

/-! ## The source -/

/-- A fetch that was answered, and the attempt that this makes. -/
def System.attempted (env : HttpEnv) (s : System) (i : Nat) : Option (Fetch × FetchAttempt) :=
  (s.fetches[i]?).bind fun f => f.answer.map fun answer => (f, fetchOnceInner env s.now f.request f.cached answer)

/-- What an attempt changes in the shared cache. -/
def FetchAttempt.write (attempt : FetchAttempt) (key : ResourceRequestKey) : Option (ResourceRequestKey × Option Response) :=
  match attempt.cachePolicy with
  | .store =>
    let cached := attempt.cacheResponse.getD attempt.response
    if isCacheableResponse cached then some (key, some cached) else none
  | .remove => some (key, none)
  | .unchanged => none

/-- What a step changes in the shared cache. -/
def System.write (env : HttpEnv) (s : System) : Action → Option (ResourceRequestKey × Option Response)
  | .evict key => some (key, none)
  | .receive i => (s.attempted env i).bind fun attempted => attempted.2.write attempted.1.request.key
  | _ => none

structure NetworkSource where
  net : System
  negativeCache : ResourceRequestKey → Option NegativeCacheEntry
  requests : List PendingRequest
  /-- What the attempts have come to. -/
  responses : Nat → Option Response
  /-- How many responses of `200` there have been for a key. -/
  successes : ResourceRequestKey → Nat
  /-- How many there had been for its key when a fetch was answered. -/
  heard : Nat → Nat

inductive SourceAction where
  /-- The clock, an origin, an eviction from the shared cache, an answer, or the end of an attempt. -/
  | net (a : Action)
  /-- An entry leaves the negative cache. -/
  | forget (key : ResourceRequestKey)
  | request (request : ResourceRequest) (minimumUpdateInterval : Duration)
  /-- The first look at the shared cache. -/
  | look (i : Nat)
  /-- The wait is over, and the shared cache is looked at again. -/
  | wake (i : Nat)
  /-- The look at the negative cache. -/
  | consult (i : Nat)
  /-- The leader of a flight makes an attempt. -/
  | attempt (i : Nat)
  /-- A request gets what an attempt for its flight has come to. -/
  | conclude (i j : Nat)
  | cancel (i : Nat)

/-- The request that makes a step. -/
def SourceAction.request? : SourceAction → Option Nat
  | .look i => some i
  | .wake i => some i
  | .consult i => some i
  | .attempt i => some i
  | .conclude i _ => some i
  | .cancel i => some i
  | _ => none

namespace NetworkSource

/-- A response of `200` is received. -/
def succeeded (s : NetworkSource) : Action → ResourceRequestKey → Nat
  | .answer i (.http 200 _ _ _ _) =>
    match s.net.fetches[i]? with
    | some f => Function.update s.successes f.request.key (s.successes f.request.key + 1)
    | none => s.successes
  | _ => s.successes

/-- An answer is received. -/
def hears (s : NetworkSource) : Action → Nat → Nat
  | .answer i _ =>
    match s.net.fetches[i]? with
    | some f => Function.update s.heard i (s.successes f.request.key)
    | none => s.heard
  | _ => s.heard

/-- An attempt ends in the negative cache, when its response says for how long. -/
def refusing (env : HttpEnv) (s : NetworkSource) : Action → ResourceRequestKey → Option NegativeCacheEntry
  | .receive i =>
    match s.net.attempted env i with
    | some (f, attempt) =>
      match attempt.negativeCacheTtl with
      | some ttl =>
        if usesSharedCache f.request.storagePolicy then
          Function.update s.negativeCache f.request.key (some ⟨attempt.response, s.net.now + ttl, s.net.now, s.heard i⟩)
        else s.negativeCache
      | none => s.negativeCache
    | none => s.negativeCache
  | _ => s.negativeCache

/-- An attempt has come to a response. -/
def responding (env : HttpEnv) (s : NetworkSource) : Action → Nat → Option Response
  | .receive i =>
    match s.net.attempted env i with
    | some (_, attempt) => Function.update s.responses i (some attempt.response)
    | none => s.responses
  | _ => s.responses

/-- A step outside of the requests. -/
def netStep (env : HttpEnv) (s : NetworkSource) (a : Action) : Option NetworkSource :=
  (s.net.step env a).map fun net =>
    { net
      negativeCache := s.refusing env a
      requests := s.requests
      responses := s.responding env a
      successes := s.succeeded a
      heard := s.hears a }

def setPhase (s : NetworkSource) (i : Nat) (q : PendingRequest) (phase : RequestPhase) : NetworkSource :=
  { s with requests := s.requests.set i { q with phase } }

/-- Whether a request looks at the caches. -/
def consults (q : PendingRequest) : Bool := usesSharedCache q.request.storagePolicy && q.request.hasCache

/-- The first look: a request that finds a fresh entry waits. -/
def looked (s : NetworkSource) (q : PendingRequest) : RequestPhase :=
  let key := q.request.key
  if consults q then
    match s.net.cache.freshUntil s.net.now key with
    | some expires =>
      let deferral := refreshDeferral s.net.now expires q.minimumUpdateInterval
      .deferred deferral (s.net.now + deferral.wait) (databaseRequest s.net.cache s.net.now q.request).2
    | none => .passed s.net.now (s.net.cache key)
  else .passed s.net.now (s.net.cache key)

/-- The look after the wait. -/
def woken (s : NetworkSource) (q : PendingRequest) (deferral : RefreshDeferral) (served : Response) : RequestPhase :=
  let key := q.request.key
  match completeDeferredRefresh deferral (s.net.cache.freshUntil s.net.now key) with
  | some response => .unmodified response served (s.net.cache key)
  | none => .passed s.net.now (s.net.cache key)

/-- What a request finds in the negative cache. -/
def refusal (s : NetworkSource) (q : PendingRequest) : Option NegativeCacheEntry :=
  if consults q then s.negativeCache q.request.key else none

/-- The look at the negative cache: an entry that has expired is removed. -/
def consult (s : NetworkSource) (i : Nat) (q : PendingRequest) (lookedAt : SystemTime) (entry : Option Response) :
    NetworkSource :=
  match s.refusal q with
  | some negative =>
    if s.net.now < negative.expiresAt then s.setPhase i q (.refused negative s.net.now lookedAt entry)
    else { s.setPhase i q .coalesced with negativeCache := Function.update s.negativeCache q.request.key none }
  | none => s.setPhase i q .coalesced

/-- A step of one request. -/
def requestStep (env : HttpEnv) (s : NetworkSource) (i : Nat) (q : PendingRequest) : SourceAction → Option NetworkSource
  | .look _ => if q.phase = .entered then some (s.setPhase i q (s.looked q)) else none
  | .wake _ =>
    match q.phase with
    | .deferred deferral wakesAt served =>
      if wakesAt ≤ s.net.now then some (s.setPhase i q (s.woken q deferral served)) else none
    | _ => none
  | .consult _ =>
    match q.phase with
    | .passed lookedAt entry => some (s.consult i q lookedAt entry)
    | _ => none
  | .attempt _ =>
    if q.phase = .coalesced then (s.net.step env (.send q.request)).map fun net => { s with net } else none
  | .conclude _ j =>
    match q.phase, s.net.fetches[j]?, s.responses j with
    | .coalesced, some f, some response =>
      if f.request.flightKey = q.request.flightKey then some (s.setPhase i q (.fetched response)) else none
    | _, _, _ => none
  | .cancel _ => some (s.setPhase i q .cancelled)
  | _ => none

def step (env : HttpEnv) (s : NetworkSource) : SourceAction → Option NetworkSource
  | .net (.send _) => none
  | .net a => s.netStep env a
  | .forget key => some { s with negativeCache := Function.update s.negativeCache key none }
  | .request request minimumUpdateInterval =>
    some { s with requests := s.requests ++ [⟨request, minimumUpdateInterval, .entered, s.successes request.key⟩] }
  | a => a.request?.bind fun i => (s.requests[i]?).bind fun q => s.requestStep env i q a

end NetworkSource

/-- The source from the time `start`, with empty caches and the given contents at the origins. -/
def networkSource (env : HttpEnv) (start : Fin clockBound) (origin : ResourceRequestKey → Representation) :
    Machine NetworkSource SourceAction where
  init := ⟨(system env start origin).init, fun _ => none, [], fun _ => none, fun _ => 0, fun _ => 0⟩
  step := NetworkSource.step env

end Biei.Filesource
