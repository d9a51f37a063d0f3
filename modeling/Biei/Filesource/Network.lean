import Biei.Filesource.Cache
import Biei.Lib.Run

/-!
# The network file source

Requests to the origins, what becomes of their answers, and the system they make up: renderers that fetch, a cache that they share
and that evicts what it will, origins whose contents change, and a clock. Fetches overlap freely: what the cache held when a
request was sent may have been replaced by the time it is answered.
-/

namespace Biei.Filesource

def mib : Nat := 1024 * 1024

def maxResourceBytes : ResourceKind → Nat
  | .glyphs | .spriteJson | .source | .style => 4 * mib
  | .tile | .spriteImage | .image => 16 * mib
  | .unknown => 8 * mib

def maxNegativeCacheTtl : Duration := 15 * second

inductive ConditionalValidator where
  | etag (etag : String)
  | modified (modified : SystemTime)
deriving DecidableEq

def conditionalValidator (prior : PriorResponse) : Option ConditionalValidator :=
  (prior.etag.map .etag).or (prior.modified.map .modified)

def usesSharedCache (storagePolicy : StoragePolicy) : Bool := storagePolicy == .permanent

def mayConsultSharedCache (storagePolicy : StoragePolicy) (cacheLoadingAllowed : Bool) : Bool :=
  cacheLoadingAllowed && usesSharedCache storagePolicy

/-! ## Attempts -/

structure RetryDirective where
  reason : String
  delay : Option Duration

/-- `retry_directive`. -/
def retryDirective (env : HttpEnv) (now : SystemTime) (status : Nat) (headers : HeaderMap) : Option RetryDirective :=
  if status = 408 then some ⟨"request_timeout", none⟩
  else if status = 429 then
    some ⟨"rate_limit", ((headers.getStr "retry-after").bind (parseRetryAfter env now)).bind fun deadline =>
      durationSince deadline now⟩
  else if 500 ≤ status ∧ status ≤ 599 then some ⟨"server", none⟩
  else none

/-- `negative_cache_ttl`. -/
def negativeCacheTtl (env : HttpEnv) (now : SystemTime) (status : Nat) (kind : ResourceKind) (storagePolicy : StoragePolicy)
    (headers : HeaderMap) (maximum : Duration) : Option Duration :=
  let control := parsedCacheControl headers
  if (status ≠ 404 ∧ status ≠ 410) ∨ storagePolicy ≠ .permanent ∨
      (control.any fun control => control.noStore || control.private || control.noCache) then none
  else
    let explicit := ((sharedMaxAge control).map fun freshness => freshness - responseCurrentAge env headers now).or
      ((headerDate env headers "expires").bind fun expires => durationSince expires now)
    let ttl := match explicit with
      | some freshness => some (min freshness maximum)
      | none => if kind = ResourceKind.tile then some maximum else none
    ttl.filter fun ttl => ttl ≠ 0

structure FetchAttempt where
  response : Response
  retry : Option RetryDirective := none
  negativeCacheTtl : Option Duration := none
  cachePolicy : CachePolicy := .unchanged
  cacheResponse : Option Response := none

/-- `FetchAttempt::retryable`. -/
def FetchAttempt.retryable (response : Response) (reason : String) : FetchAttempt :=
  { response, retry := some ⟨reason, none⟩ }

def reqwestErrorMessage (label : String) : String :=
  if label = "timeout" then "resource request timed out"
  else if label = "connect" then "resource connection failed"
  else if label = "redirect" then "resource redirect failed"
  else if label = "body" ∨ label = "decode" then "resource response body failed"
  else "resource request failed"

/-- `response_from_reqwest_error`, given the error's label. -/
def responseFromReqwestError (label : String) : Response := .failed .connection (reqwestErrorMessage label)

def requestTimeoutResponse : Response := .failed .connection "resource request timed out"

/-- How the reading of a body ends. -/
inductive BodyEnd where
  | complete
  | failed (label : String)
  | timedOut
deriving DecidableEq

/-- What comes back for a request. -/
inductive Answer where
  | failed (label : String)
  | timedOut
  | http (status : Nat) (headers : HeaderMap) (contentLength : Option Nat) (chunks : List Bytes) (ending : BodyEnd)

/-- Reading the body chunk by chunk, up to the limit for its kind. -/
def readBody (maxBytes : Nat) (ending : BodyEnd) (body : Bytes) : List Bytes → Except FetchAttempt Bytes
  | [] =>
    match ending with
    | .complete => .ok body
    | .failed label => .error (.retryable (responseFromReqwestError label) "transport")
    | .timedOut => .error (.retryable requestTimeoutResponse "timeout")
  | chunk :: rest =>
    match checkedAdd body.length chunk.length with
    | none => .error { response := .failed .other "resource body too large" }
    | some newLen =>
      if newLen > maxBytes then
        .error { response := .failed .other ("resource body exceeds " ++ toString maxBytes ++ " bytes") }
      else readBody maxBytes ending (body ++ chunk) rest

/-- `not_modified_attempt`. -/
def notModifiedAttempt (env : HttpEnv) (now : SystemTime) (kind : ResourceKind) (storagePolicy : StoragePolicy)
    (headers : HeaderMap)
    (prior : PriorResponse) : FetchAttempt :=
  let notModified := responseFromHttp env 304 headers [] kind prior now
  match materializeNotModified notModified prior with
  | none =>
    if prior.etag.isSome || prior.modified.isSome then { response := notModified }
    else { response := .failed .other "HTTP 304 received without a prior validator" }
  | some materialized =>
    { response := notModified, cachePolicy := cachePolicyForResponse storagePolicy headers, cacheResponse := some materialized }

/-- `fetch_once_inner`, from what it found in the cache and the answer to its request. -/
def fetchOnceInner (env : HttpEnv) (now : SystemTime) (request : ResourceRequest) (cached : Option Response) : Answer →
    FetchAttempt
  | .failed label => .retryable (responseFromReqwestError label) "transport"
  | .timedOut => .retryable requestTimeoutResponse "timeout"
  | .http status headers contentLength chunks ending =>
    let prior := priorResponseWithCache request cached
    if status = 304 then notModifiedAttempt env now request.kind request.storagePolicy headers prior
    else if status ≠ 200 ∧ status ≠ 206 then
      let mapped := responseFromHttp env status headers [] request.kind prior now
      match retryDirective env now status headers with
      | some retry => { response := mapped, retry := some retry }
      | none =>
        { response := mapped,
          negativeCacheTtl := negativeCacheTtl env now status request.kind request.storagePolicy headers maxNegativeCacheTtl }
    else if contentLength.any fun length => maxResourceBytes request.kind < length then
      { response := .failed .other ("resource body too large: " ++ toString (contentLength.getD 0) ++ " bytes") }
    else
      match readBody (maxResourceBytes request.kind) ending [] chunks with
      | .error attempt => attempt
      | .ok body =>
        { response := responseFromHttp env status headers body request.kind {} now,
          cachePolicy := cachePolicyForResponse request.storagePolicy headers }

/-- `finish_fetch`: what an attempt does to the cache. -/
def finishFetch (cache : ResourceCache) (key : ResourceRequestKey) (attempt : FetchAttempt) : ResourceCache :=
  match attempt.cachePolicy with
  | .store => cache.store key (attempt.cacheResponse.getD attempt.response)
  | .remove => cache.invalidate key
  | .unchanged => cache

/-! ## The system -/

/-- What an origin has for a key. -/
structure Representation where
  body : Bytes
  etag : Option String
deriving DecidableEq

/-- A fetch under way: its request, what the cache held when it was sent, and the answer once there is one. -/
structure Fetch where
  request : ResourceRequest
  cached : Option Response
  answer : Option Answer
  finished : Bool

def Fetch.prior (f : Fetch) : PriorResponse := priorResponseWithCache f.request f.cached

/-- What a response that was stored came from. -/
structure Provenance where
  status : Nat
  headers : HeaderMap
  receivedAt : SystemTime

structure System where
  now : SystemTime
  cache : ResourceCache
  fetches : List Fetch
  origin : ResourceRequestKey → Representation
  /-- What the origins have said: the body an origin had when it answered, with the `ETag` of the answer. -/
  served : List (ResourceRequestKey × Representation)
  /-- What the entry of a key was stored from. -/
  provenance : ResourceRequestKey → Option Provenance
  /-- Whether the latest response stored for a key that had a `Cache-Control`, or had a body, was `no-cache`. -/
  noCache : ResourceRequestKey → Bool

inductive Action where
  | advance (d : Duration)
  /-- The origin has something else from now on. -/
  | change (key : ResourceRequestKey) (representation : Representation)
  | evict (key : ResourceRequestKey)
  /-- A fetch reads the cache and sends its request. -/
  | send (request : ResourceRequest)
  /-- The request is answered, or fails. -/
  | answer (i : Nat) (answer : Answer)
  /-- The fetch has its answer, and finishes. -/
  | receive (i : Nat)

/-- The clock of the system counts nanoseconds in an `i64`. -/
def clockBound : Nat := 2 ^ 63

def headerEtag (headers : HeaderMap) : Option String := (headers.getStr "etag").map String.ofList

/-- What an answer says of the body that the origin has. -/
def Answer.states (body : Bytes) : Answer → List Representation
  | .http status headers _ _ _ => if status = 200 ∨ status = 206 ∨ status = 304 then [⟨body, headerEtag headers⟩] else []
  | .failed _ => []
  | .timedOut => []

/-- Whether a response is `no-cache` by its own headers, or by what was so far when it has none. -/
def noCacheAfter (status : Nat) (headers : HeaderMap) (before : Bool) : Bool :=
  match parsedCacheControl headers with
  | some control => control.noCache
  | none => status == 304 && before

/-- The end of a fetch that was answered. -/
def System.receive (env : HttpEnv) (s : System) (i : Nat) (f : Fetch) (answer : Answer) : System :=
  let attempt := fetchOnceInner env s.now f.request f.cached answer
  let key := f.request.key
  let done := { s with cache := finishFetch s.cache key attempt, fetches := s.fetches.set i { f with finished := true } }
  match attempt.cachePolicy, answer with
  | .store, .http status headers _ _ _ =>
    { done with
      provenance := Function.update s.provenance key (some ⟨status, headers, s.now⟩)
      noCache := Function.update s.noCache key (noCacheAfter status headers (s.noCache key)) }
  | .remove, _ => { done with provenance := Function.update s.provenance key none }
  | _, _ => done

/-- What a request finds in the cache, when it may consult it. -/
def System.consulted (s : System) (request : ResourceRequest) : Option Response :=
  if mayConsultSharedCache request.storagePolicy request.hasCache then s.cache request.key else none

def System.step (env : HttpEnv) (s : System) : Action → Option System
  | .advance d => if s.now + d < clockBound then some { s with now := s.now + d } else none
  | .change key representation => some { s with origin := Function.update s.origin key representation }
  | .evict key =>
    some { s with cache := s.cache.invalidate key, provenance := Function.update s.provenance key none }
  | .send request => some { s with fetches := s.fetches ++ [⟨request, s.consulted request, none, false⟩] }
  | .answer i answer =>
    match s.fetches[i]? with
    | some f =>
      if f.answer.isSome then none
      else
        some { s with
          fetches := s.fetches.set i { f with answer := some answer }
          served := (answer.states (s.origin f.request.key).body).map (fun r => (f.request.key, r)) ++ s.served }
    | none => none
  | .receive i =>
    match s.fetches[i]? with
    | some f =>
      match f.answer with
      | some answer => if f.finished then none else some (s.receive env i f answer)
      | none => none
    | none => none

/-- The system from the time `start`, with an empty cache and the given contents at the origins. -/
def system (env : HttpEnv) (start : Fin clockBound) (origin : ResourceRequestKey → Representation) : Machine System Action where
  init := ⟨start.val, fun _ => none, [], origin, [], fun _ => none, fun _ => false⟩
  step := System.step env

end Biei.Filesource
