import Biei.Common.SingleFlight
import Biei.Lib.Run
import Biei.Provider.Fetch

/-!
# The provider cache

`ProviderFetcher`: callers that look a resource up, lead or follow its fetch, and refresh it in the background when it is stale.
Every access to one of the three maps and every reading of the clock is a step of its own; between two of them anything may
happen. The cache evicts what it will, a fetch may be dropped while it waits, and any answer may come from an origin.
-/

namespace Biei.Provider

def revalidationFailureCooldown : Duration := 5 * second

structure ProviderFetchCacheKey where
  resource : String
  acceptedContentTypes : List String
  bodyValidation : BodyValidation
  url : String
deriving DecidableEq

def ProviderRequest.key (request : ProviderRequest) : ProviderFetchCacheKey :=
  ⟨request.resource, request.acceptedContentTypes, request.bodyValidation, request.url⟩

/-! ## Endpoints -/

/-- Who calls `fetch_bytes` and `fetch_json`. -/
inductive Endpoint where
  | style
  | glyph
  | spriteJson
  | spritePng
deriving DecidableEq

def jsonContentTypes : List String := ["application/json", "text/json", "application/octet-stream"]

def glyphContentTypes : List String :=
  ["application/x-protobuf", "application/vnd.google.protobuf", "application/protobuf", "application/octet-stream"]

def spritePngContentTypes : List String := ["image/png", "application/octet-stream"]

/-- What each endpoint asks for. -/
def Endpoint.request (endpoint : Endpoint) (url : String) : ProviderRequest :=
  match endpoint with
  | .style => ⟨2 * 1024 * 1024, "style", jsonContentTypes, .json, url⟩
  | .glyph => ⟨1024 * 1024, "glyph", glyphContentTypes, .bytes, url⟩
  | .spriteJson => ⟨2 * 1024 * 1024, "sprite", jsonContentTypes, .json, url⟩
  | .spritePng => ⟨8 * 1024 * 1024, "sprite", spritePngContentTypes, .bytes, url⟩

/-! ## Entries -/

inductive Freshness where
  | fresh
  | stale
  | expired
deriving DecidableEq

structure FoundEntry where
  bytes : Bytes
  cacheControl : List Char
  validators : Validators
  contentEncoding : Option (List Char)
  ageAtInsert : Duration
  storedAt : Instant
  freshUntil : Instant
  staleUntil : Instant
  /-- The policy that it was stored with. Nothing reads it. -/
  policy : CachePolicy
deriving DecidableEq

structure NegativeEntry where
  status : Nat
  freshUntil : Instant
  staleUntil : Instant
  /-- When it was stored, and what from. Nothing reads them. -/
  storedAt : Instant
  negative : FetchedProviderNegative
deriving DecidableEq

inductive CachedProviderFetch where
  | found (entry : FoundEntry)
  | negative (entry : NegativeEntry)
deriving DecidableEq

namespace CachedProviderFetch

def freshUntil : CachedProviderFetch → Instant
  | found e => e.freshUntil
  | negative e => e.freshUntil

def staleUntil : CachedProviderFetch → Instant
  | found e => e.staleUntil
  | negative e => e.staleUntil

def freshness (e : CachedProviderFetch) (now : Instant) : Freshness :=
  if now < e.freshUntil then .fresh else if now < e.staleUntil then .stale else .expired

def representation : CachedProviderFetch → Option CachedProviderRepresentation
  | found e => some ⟨e.bytes, e.cacheControl, e.validators, e.contentEncoding⟩
  | negative _ => none

end CachedProviderFetch

/-- `ProviderResource`. -/
structure ProviderResource where
  bytes : Bytes
  cacheControl : List Char
  ageSeconds : Nat
  validators : Validators
  contentEncoding : Option (List Char)
deriving DecidableEq

/-- `ProviderResource::fetched`. -/
def ProviderResource.fetched (fetched : FetchedProviderResource) : ProviderResource :=
  ⟨fetched.bytes, fetched.policy.responseCacheControl, fetched.initialAge / second, fetched.validators, fetched.contentEncoding⟩

/-- `ProviderResource::decoded_bytes`. -/
def ProviderResource.decodedBytes (env : ProviderEnv) (r : ProviderResource) (maxBytes : Nat) (resource : String) :
    Except HttpError Bytes :=
  decodeProviderBody env r.bytes r.contentEncoding maxBytes resource

/-- The start of `transform_style`: the bytes are decoded and parsed as JSON. -/
def parsedStyle (env : ProviderEnv) (r : ProviderResource) : Except HttpError Bytes := do
  let decoded ← r.decodedBytes env (2 * 1024 * 1024) "style"
  match env.parseJsonValue decoded with
  | some error => .error (badGateway ("style JSON invalid: " ++ error))
  | none => .ok decoded

def providerNegativeError (status : Nat) : HttpError := ⟨status, if status = 410 then "gone" else "not found"⟩

/-- `CachedProviderFetch::into_result`. -/
def CachedProviderFetch.intoResult (now : Instant) : CachedProviderFetch → Except HttpError ProviderResource
  | .found e =>
    .ok ⟨e.bytes, e.cacheControl, durationSaturatingAdd (now - e.storedAt) e.ageAtInsert / second, e.validators,
      e.contentEncoding⟩
  | .negative e => .error (providerNegativeError e.status)

/-- What a leader makes of its fetch for itself and for its followers: `ProviderFlightOutcome`. -/
def leaderResponse : Except HttpError ProviderOriginOutcome → Except HttpError ProviderResource
  | .error error => .error error
  | .ok (.negative miss) => .error (providerNegativeError miss.status)
  | .ok (.modified fetched) => .ok (.fetched fetched)
  | .ok (.notModified fetched) => .ok (.fetched fetched)

/-- How long a result is kept when it may be: `retention_remaining` of `put_found`, `fresh` of `put_negative`. -/
def ProviderOriginOutcome.retention : ProviderOriginOutcome → Duration
  | .modified fetched => fetched.policy.fresh + fetched.policy.swr - fetched.initialAge
  | .notModified fetched => fetched.policy.fresh + fetched.policy.swr - fetched.initialAge
  | .negative miss => miss.policy.fresh - miss.initialAge

/-- Whether the policy of a result lets it be stored at all. -/
def ProviderOriginOutcome.store : ProviderOriginOutcome → Bool
  | .modified fetched => fetched.policy.store
  | .notModified fetched => fetched.policy.store
  | .negative miss => miss.policy.store

/-- The entry that `put_found` writes. -/
def foundEntry (fetched : FetchedProviderResource) (storedAt : Instant) : FoundEntry where
  bytes := fetched.bytes
  cacheControl := fetched.policy.responseCacheControl
  validators := fetched.validators
  contentEncoding := fetched.contentEncoding
  ageAtInsert := fetched.initialAge
  storedAt
  freshUntil := storedAt + (fetched.policy.fresh - fetched.initialAge)
  staleUntil := storedAt + (fetched.policy.fresh + fetched.policy.swr - fetched.initialAge)
  policy := fetched.policy

/-- The entry that `put_negative` writes. -/
def negativeEntry (negative : FetchedProviderNegative) (storedAt : Instant) : NegativeEntry where
  status := negative.status
  freshUntil := storedAt + (negative.policy.fresh - negative.initialAge)
  staleUntil := storedAt + (negative.policy.fresh - negative.initialAge)
  storedAt
  negative

/-- What `put_found` and `put_negative` write, read off the clock; `none` when they invalidate the key instead. -/
def ProviderOriginOutcome.entry (outcome : ProviderOriginOutcome) (now : Instant) : Option CachedProviderFetch :=
  if !outcome.store || outcome.retention = 0 then none
  else
    match outcome with
    | .modified fetched => some (.found (foundEntry fetched now))
    | .notModified fetched => some (.found (foundEntry fetched now))
    | .negative miss => some (.negative (negativeEntry miss now))

/-! ## Callers and background tasks -/

/-- Where a caller or a background task stands. -/
inductive Phase where
  /-- At the head of the loop, before `entries.get`. -/
  | looking
  /-- `get` has the entry; its freshness is not known yet. -/
  | judging (entry : CachedProviderFetch)
  /-- `get` found nothing to serve; before `begin_fetch`. -/
  | missed
  /-- Leads the flight; before the second `get`. -/
  | elected
  /-- The second `get` has an entry; its freshness is not known yet. -/
  | rejudging (entry : CachedProviderFetch)
  /-- The second `get` found one to serve; before the guard is dropped and the loop goes on. -/
  | yielding
  /-- `fetch_limited_bytes_uncached`. -/
  | fetching (revalidate : Option CachedProviderRepresentation)
  /-- `mark_stale_revalidation_failure`, before `entries.get`. -/
  | marking (error : HttpError)
  | markJudging (error : HttpError) (entry : CachedProviderFetch)
  /-- The entry is stale: before the cooldown is inserted. -/
  | cooling (error : HttpError)
  /-- The entry is expired: before it is invalidated. -/
  | discarding (error : HttpError)
  /-- Before the cooldown is invalidated. -/
  | forgiving (error : HttpError)
  /-- `put_found` or `put_negative`, before the cooldown is invalidated. -/
  | storing (outcome : ProviderOriginOutcome)
  /-- Before the policy is looked at and the clock is read. -/
  | deciding (outcome : ProviderOriginOutcome)
  | inserting (outcome : ProviderOriginOutcome) (entry : CachedProviderFetch)
  /-- `invalidate`: before the entry is removed. -/
  | removing (outcome : ProviderOriginOutcome)
  /-- `invalidate`: before the cooldown is removed. -/
  | clearing (outcome : ProviderOriginOutcome)
  /-- The cache has what it is to have; before the guard is dropped with the outcome. -/
  | completing (result : Except HttpError ProviderOriginOutcome)
  /-- `spawn_stale_revalidation`, in `stale_revalidation_allowed`: the first time, or (`led`) the second time, as the leader. -/
  | asking (led : Bool) (entry : CachedProviderFetch)
  /-- The cooldown is over; before it is invalidated. -/
  | lapsed (led : Bool) (entry : CachedProviderFetch)
  /-- Before `begin_fetch`. -/
  | permitted (entry : CachedProviderFetch)
  /-- Leads the flight, allowed; in `stale_representation`, before `entries.get`. -/
  | confirmed (entry : CachedProviderFetch)
  | confirmJudging (entry : CachedProviderFetch) (current : CachedProviderFetch)
  /-- Not to revalidate after all: before the guard is dropped. -/
  | releasing (entry : CachedProviderFetch)
  /-- Before `into_result`. -/
  | serving (entry : CachedProviderFetch)
  | following (channel : Nat)
  | returned (result : Except HttpError ProviderResource)
  | cancelled
deriving DecidableEq

/-- Whether the actor holds the guard of its key's flight. -/
def Phase.leads : Phase → Bool
  | elected => true
  | rejudging _ => true
  | yielding => true
  | fetching _ => true
  | marking _ => true
  | markJudging _ _ => true
  | cooling _ => true
  | discarding _ => true
  | forgiving _ => true
  | storing _ => true
  | deciding _ => true
  | inserting _ _ => true
  | removing _ => true
  | clearing _ => true
  | completing _ => true
  | asking led _ => led
  | lapsed led _ => led
  | confirmed _ => true
  | confirmJudging _ _ => true
  | releasing _ => true
  | _ => false

/-- A caller of `fetch_limited_bytes_with_validation`, or a task that `spawn_stale_revalidation` has spawned. -/
structure Actor where
  request : ProviderRequest
  background : Bool
  phase : Phase

def Actor.key (a : Actor) : ProviderFetchCacheKey := a.request.key

/-- A cached entry that was given to a caller, and when. -/
structure Served where
  key : ProviderFetchCacheKey
  entry : CachedProviderFetch
  freshness : Freshness
  time : Instant

/-- What a step does to the flight of the actor's key. -/
inductive FlightMove where
  | lead
  | drop (outcome : Option (Except HttpError ProviderResource))

/-- What a step of an actor does: at most one map changes, and only for the actor's key. -/
structure Move where
  phase : Phase
  entry : Option (Option CachedProviderFetch) := none
  cooldown : Option (Option Instant) := none
  flight : Option FlightMove := none
  spawned : Option Phase := none
  served : Option (CachedProviderFetch × Freshness) := none
  /-- The step completes a leader's result that may not be kept, or stores one. -/
  refused : Option Bool := none

structure Fetcher where
  now : Instant
  entries : ProviderFetchCacheKey → Option CachedProviderFetch
  failedRevalidations : ProviderFetchCacheKey → Option Instant
  inflight : SingleFlight ProviderFetchCacheKey (Except HttpError ProviderResource)
  actors : List Actor
  /-- Every cached entry that was given to a caller. -/
  served : List Served
  /-- Whether the latest leader's result of the key was one that may not be kept, with none stored since. -/
  refused : ProviderFetchCacheKey → Bool

/-- What a leader does with the result of its fetch: a background task notes a failure first. -/
def afterFetch (background : Bool) : Except HttpError ProviderOriginOutcome → Phase
  | .error error => if background then .marking error else .completing (.error error)
  | .ok outcome => .storing outcome

/-- `put_found` and `put_negative` once the clock is read. -/
def afterDeciding (outcome : ProviderOriginOutcome) (now : Instant) : Phase :=
  match outcome.entry now with
  | some entry => .inserting outcome entry
  | none => .removing outcome

/-- `get` of the loop, once the clock is read: a stale entry is served too, after its revalidation is considered. -/
def judge (entry : CachedProviderFetch) (now : Instant) : Move :=
  match entry.freshness now with
  | .fresh => { phase := .serving entry, served := some (entry, .fresh) }
  | .stale => { phase := .asking false entry, served := some (entry, .stale) }
  | .expired => { phase := .missed }

/-- `mark_stale_revalidation_failure`, once the clock is read. -/
def afterMarking (error : HttpError) (freshness : Freshness) : Phase :=
  match freshness with
  | .stale => .cooling error
  | .expired => .discarding error
  | .fresh => .forgiving error

/-- After `stale_revalidation_allowed`, when it is. -/
def allowed (led : Bool) (entry : CachedProviderFetch) : Phase := if led then .confirmed entry else .permitted entry

/-- After `stale_revalidation_allowed`, when it is not. -/
def refusedRevalidation (led : Bool) (entry : CachedProviderFetch) : Phase := if led then .releasing entry else .serving entry

/-- `stale_representation`, once the clock is read. -/
def confirm (entry current : CachedProviderFetch) (now : Instant) : Move :=
  match current.freshness now, current.representation with
  | .stale, some representation => { phase := .serving entry, spawned := some (.fetching (some representation)) }
  | _, _ => { phase := .releasing entry }

/-- Whether the leader's result is one that may not be kept. -/
def refusesStorage : Except HttpError ProviderOriginOutcome → Option Bool
  | .error _ => none
  | .ok outcome => if !outcome.store || outcome.retention = 0 then some true else none

/-- What an actor does next of itself. -/
def Fetcher.move (s : Fetcher) (a : Actor) : Option Move :=
  match a.phase with
  | .looking =>
    match s.entries a.key with
    | some entry => some { phase := .judging entry }
    | none => some { phase := .missed }
  | .judging entry => some (judge entry s.now)
  | .missed =>
    match s.inflight.entries a.key with
    | some channel => some { phase := .following channel }
    | none => some { phase := .elected, flight := some .lead }
  | .elected =>
    match s.entries a.key with
    | some entry => some { phase := .rejudging entry }
    | none => some { phase := .fetching none }
  | .rejudging entry =>
    if entry.freshness s.now = .expired then some { phase := .fetching none } else some { phase := .yielding }
  | .yielding => some { phase := .looking, flight := some (.drop none) }
  | .fetching _ => none
  | .marking error =>
    match s.entries a.key with
    | some entry => some { phase := .markJudging error entry }
    | none => some { phase := .forgiving error }
  | .markJudging error entry => some { phase := afterMarking error (entry.freshness s.now) }
  | .cooling error => some { phase := .completing (.error error), cooldown := some (some (s.now + revalidationFailureCooldown)) }
  | .discarding error => some { phase := .forgiving error, entry := some none }
  | .forgiving error => some { phase := .completing (.error error), cooldown := some none }
  | .storing outcome => some { phase := .deciding outcome, cooldown := some none }
  | .deciding outcome => some { phase := afterDeciding outcome s.now }
  | .inserting outcome entry => some { phase := .completing (.ok outcome), entry := some (some entry), refused := some false }
  | .removing outcome => some { phase := .clearing outcome, entry := some none }
  | .clearing outcome => some { phase := .completing (.ok outcome), cooldown := some none }
  | .completing result =>
    some
      { phase := .returned (leaderResponse result)
        flight := some (.drop (some (leaderResponse result)))
        refused := refusesStorage result }
  | .asking led entry =>
    match s.failedRevalidations a.key with
    | none => some { phase := allowed led entry }
    | some retryAt => if s.now < retryAt then some { phase := refusedRevalidation led entry } else
        some { phase := .lapsed led entry }
  | .lapsed led entry => some { phase := allowed led entry, cooldown := some none }
  | .permitted entry =>
    match s.inflight.entries a.key with
    | some _ => some { phase := .serving entry }
    | none => some { phase := .asking true entry, flight := some .lead }
  | .confirmed entry =>
    match s.entries a.key with
    | some current => some { phase := .confirmJudging entry current }
    | none => some { phase := .releasing entry }
  | .confirmJudging entry current => some (confirm entry current s.now)
  | .releasing entry => some { phase := .serving entry, flight := some (.drop none) }
  | .serving entry => some { phase := .returned (entry.intoResult s.now) }
  | .following channel =>
    match s.inflight.channels channel with
    | .pending => none
    | .closed (some outcome) => some { phase := .returned outcome }
    | .closed none => some { phase := .looking }
  | .returned _ => none
  | .cancelled => none

/-- What dropping an actor does: only one that awaits can be dropped, and a leader's guard goes with it. -/
def cancelMove (a : Actor) : Option Move :=
  match a.phase with
  | .fetching _ => some { phase := .cancelled, flight := some (.drop none) }
  | .following _ => some { phase := .cancelled }
  | _ => none

/-- What the answer to an actor's fetch does. -/
def answerMove (env : ProviderEnv) (a : Actor) (answer : OriginAnswer) : Option Move :=
  match a.phase with
  | .fetching revalidate =>
    (fetchLimitedBytesUncached env a.request revalidate answer).map fun result => { phase := afterFetch a.background result }
  | _ => none

/-! ## The system -/

inductive Action where
  | call (endpoint : Endpoint) (url : String)
  | step (i : Nat)
  | answer (i : Nat) (answer : OriginAnswer)
  | cancel (i : Nat)
  | advance (d : Duration)
  | evict (key : ProviderFetchCacheKey)
  /-- The bounded map of cooldowns evicts one. -/
  | forget (key : ProviderFetchCacheKey)

namespace Fetcher

def writeEntry (s : Fetcher) (key : ProviderFetchCacheKey) : Option (Option CachedProviderFetch) → Fetcher
  | none => s
  | some entry => { s with entries := Function.update s.entries key entry }

def writeCooldown (s : Fetcher) (key : ProviderFetchCacheKey) : Option (Option Instant) → Fetcher
  | none => s
  | some cooldown => { s with failedRevalidations := Function.update s.failedRevalidations key cooldown }

def moveFlight (s : Fetcher) (key : ProviderFetchCacheKey) : Option FlightMove → Fetcher
  | none => s
  | some .lead => { s with inflight := s.inflight.lead key }
  | some (.drop outcome) => { s with inflight := s.inflight.dropGuard key outcome }

def note (s : Fetcher) (key : ProviderFetchCacheKey) (m : Move) : Fetcher :=
  { s with
    served := (m.served.map fun given => Served.mk key given.1 given.2 s.now).toList ++ s.served
    refused :=
      match m.refused with
      | none => s.refused
      | some b => Function.update s.refused key b }

/-- The actor moves on, and the task that it spawns starts. -/
def moveActor (s : Fetcher) (i : Nat) (a : Actor) (m : Move) : Fetcher :=
  { s with
    actors := s.actors.set i { a with phase := m.phase } ++
      (m.spawned.map fun phase => { request := a.request, background := true, phase }).toList }

/-- What a move does to everything. -/
def apply (s : Fetcher) (i : Nat) (a : Actor) (m : Move) : Fetcher :=
  ((((s.writeEntry a.key m.entry).writeCooldown a.key m.cooldown).moveFlight a.key m.flight).note a.key m).moveActor i a m

def step (env : ProviderEnv) (s : Fetcher) : Action → Option Fetcher
  | .call endpoint url => some { s with actors := s.actors ++ [⟨endpoint.request url, false, .looking⟩] }
  | .step i => (s.actors[i]?).bind fun a => (s.move a).map (s.apply i a)
  | .answer i answer => (s.actors[i]?).bind fun a => (answerMove env a answer).map (s.apply i a)
  | .cancel i => (s.actors[i]?).bind fun a => (cancelMove a).map (s.apply i a)
  | .advance d => some { s with now := s.now + d }
  | .evict key => some { s with entries := Function.update s.entries key none }
  | .forget key => some { s with failedRevalidations := Function.update s.failedRevalidations key none }

end Fetcher

/-- `ProviderFetchCache::new`, at a time. -/
def fetcher (env : ProviderEnv) (start : Instant) : Machine Fetcher Action where
  init := ⟨start, fun _ => none, fun _ => none, .empty, [], [], fun _ => false⟩
  step := Fetcher.step env

end Biei.Provider
