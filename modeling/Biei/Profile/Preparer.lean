import Biei.Common.SingleFlight
import Biei.Http.Headers
import Biei.Renderer.Worker

/-!
# Fetching styles and tilesets

How a fetch of a style or a TileJSON ends, and the failure it gives: what kind of error it is, whether it may be cached for a
while, and whether it is one of the whole attempt or only of the caller who ran out of time.
-/

namespace Biei.Profile

inductive ProfileContent where
  | style (styleId : StyleId)
  | source (hash : UInt64)
deriving DecidableEq

inductive ProfilePreparationError where
  | styleUnavailable (styleId : StyleId) (source : String)
  | sourceUnavailable (hash : UInt64) (source : String)
  | callerDeadlineExceeded
  | infrastructureFailure (source : String)
  | invalidPreparedContent (content : ProfileContent) (source : String)
deriving DecidableEq

/-- `ProfilePreparationError::into_source`. -/
def ProfilePreparationError.intoSource (hash : UInt64) : ProfilePreparationError → ProfilePreparationError
  | .styleUnavailable _ source => .sourceUnavailable hash source
  | .invalidPreparedContent _ source => .invalidPreparedContent (.source hash) source
  | other => other

inductive ProfileFetchFailureScope where
  | attempt
  | caller
deriving DecidableEq

structure ProfileFetchError where
  error : ProfilePreparationError
  negativeCacheable : Bool
  scope : ProfileFetchFailureScope
deriving DecidableEq

namespace ProfileFetchError

def permanent (error : ProfilePreparationError) : ProfileFetchError := ⟨error, true, .attempt⟩

def transient (error : ProfilePreparationError) : ProfileFetchError := ⟨error, false, .attempt⟩

def callerDeadline : ProfileFetchError := ⟨.callerDeadlineExceeded, false, .caller⟩

def isAttemptWide (failure : ProfileFetchError) : Bool := failure.scope == .attempt

def transientLoad (styleId : StyleId) (source : String) : ProfileFetchError := transient (.styleUnavailable styleId source)

def permanentInvalid (styleId : StyleId) (source : String) : ProfileFetchError :=
  permanent (.invalidPreparedContent (.style styleId) source)

end ProfileFetchError

/-- `is_permanent_profile_http_status`. -/
def isPermanentProfileHttpStatus (status : Nat) : Bool := 400 ≤ status && status < 500 && status != 408 && status != 429

/-- What is fetched: a style, or the TileJSON of a tileset for a style. -/
inductive LoadTarget where
  | style (revision : StyleRevision)
  | tileset (url : String)
deriving DecidableEq

/-- How a fetch ends. The texts are whatever the provider, the URL or the file leads to. -/
inductive FetchEnd where
  /-- No permit, no answer or no whole body before the caller's deadline. -/
  | deadline
  | semaphoreClosed
  /-- The style has no definition. -/
  | notRegistered
  /-- The URL, the size, the encoding or the content is not acceptable. -/
  | invalid (text : String)
  /-- A request, a body or a file could not be read. -/
  | unreadable (text : String)
  | status (status : Nat) (text : String)
  | body (json : String)
deriving DecidableEq

/-- `fetch_uncached_style` and `fetch_uncached_tileset`, from how the fetch ends; `none` when it cannot end so. -/
def fetchUncached (styleId : StyleId) (target : LoadTarget) : FetchEnd → Option (Except ProfileFetchError String)
  | .deadline => some (.error .callerDeadline)
  | .semaphoreClosed => some (.error (.transient (.infrastructureFailure "profile fetch semaphore closed")))
  | .notRegistered =>
    match target with
    | .style revision =>
      some (.error (.transient (.infrastructureFailure
        ("style definition for " ++ revision.id.id ++ "@" ++ toString revision.version.toNat ++ " is not registered"))))
    | .tileset _ => none
  | .invalid text => some (.error (.permanentInvalid styleId text))
  | .unreadable text => some (.error (.transientLoad styleId text))
  | .status status text =>
    if 200 ≤ status ∧ status < 300 then none
    else if isPermanentProfileHttpStatus status then some (.error (.permanent (.styleUnavailable styleId text)))
    else some (.error (.transient (.styleUnavailable styleId text)))
  | .body json => some (.ok json)

/-! ## The profile preparer

`MapLibreProfilePreparer`: callers that prepare the profile of a task or only want to know whether a style is there, and the
renderer's word that it could not load one. Styles and tilesets each have a cache, a cache of errors and a map of flights; their
keys differ, so that here they share one of each. Every access to one of the maps is a step of its own. Entries leave the caches
at any time, and not later than their time to live; a caller may be dropped while it waits. -/

def jsonCacheMaxAge : Duration := 3600 * second

def jsonNegativeCacheTtl : Duration := 5 * second

def credentialPartition (authorization : Option RenderAuthorization) : Option CredentialCachePartition :=
  authorization.map RenderAuthorization.cachePartition

/-- `StyleCacheKey` and `TilesetCacheKey`. -/
structure LoadKey where
  target : LoadTarget
  credential : Option CredentialCachePartition
deriving DecidableEq

/-- Who made a fetch, of what, and with which credential. -/
structure Fetched where
  caller : Nat
  target : LoadTarget
  authorization : Option RenderAuthorization
deriving DecidableEq

/-- The key under which a fetch should be known. -/
def Fetched.key (f : Fetched) : LoadKey := ⟨f.target, credentialPartition f.authorization⟩

/-- A cached JSON, with the fetch it came from. -/
structure JsonEntry where
  json : String
  insertedAt : Instant
  source : Fetched
deriving DecidableEq

/-- What made an entry of the error cache. -/
inductive ErrorSource where
  | failure (failure : ProfileFetchError) (source : Fetched)
  /-- `mark_style_load_failed`: MapLibre has rejected the style that was prepared for the revision and the credential. -/
  | rejected (revision : StyleRevision) (authorization : Option RenderAuthorization)
deriving DecidableEq

structure ErrorEntry where
  error : ProfilePreparationError
  insertedAt : Instant
  source : ErrorSource
deriving DecidableEq

/-- A failure that a leader shares, with the attempt it comes from. -/
structure SharedFailure where
  failure : ProfileFetchError
  source : Fetched
deriving DecidableEq

/-! ## Callers -/

/-- Which of its caches a load looks at. -/
inductive CacheKind where
  | json
  | error
deriving DecidableEq

/-- The first and the second cache that `lookup` probes. -/
def LoadTarget.probes : LoadTarget → CacheKind × CacheKind
  | .style _ => (.error, .json)
  | .tileset _ => (.json, .error)

/-- Where the failure of a load comes from. -/
inductive Via where
  /-- From the caller's own fetch, or because its time is over while it waits. -/
  | own
  /-- From the flight that the caller has joined. -/
  | joined (source : Fetched)
  /-- From an entry of the error cache, found at a time. -/
  | negative (entry : ErrorEntry) (time : Instant)
deriving DecidableEq

/-- How `single_flight_load` ends. -/
inductive LoadEnd where
  | json (json : String) (source : Fetched)
  | failed (failure : ProfileFetchError) (via : Via)
deriving DecidableEq

/-- A call of `single_flight_load`: for what, and whether `fetch` has not been taken yet. -/
structure Load where
  target : LoadTarget
  fetch : Bool
deriving DecidableEq

inductive LoadPhase where
  /-- In `lookup`, before the cache is probed for the first or the `second` time. -/
  | probing (second : Bool)
  | beginning
  /-- Leads the flight and awaits its own fetch. -/
  | fetching
  /-- The result is there; before it is stored. -/
  | storing (result : Except ProfileFetchError String)
  /-- Before the guard is dropped. -/
  | releasing (result : Except ProfileFetchError String)
  | waiting (channel : Nat)
  | ended (result : LoadEnd)
  /-- The `expect` on the fetch failed. -/
  | panicked
deriving DecidableEq

/-- Whether a load holds the guard of its key's flight. -/
def LoadPhase.leads : LoadPhase → Bool
  | fetching => true
  | storing _ => true
  | releasing _ => true
  | _ => false

/-- Who calls the preparer. -/
inductive Call where
  /-- `prepare_profile` of a task with such a style, credential and deadline, and the source and hash of its addlayer, if it has
  one. -/
  | prepare (revision : StyleRevision) (authorization : Option RenderAuthorization) (deadline : Instant)
      (addlayer : Option (AddLayerSource × UInt64))
  | ensure (revision : StyleRevision) (deadline : Instant)
  | mark (revision : StyleRevision) (authorization : Option RenderAuthorization)

namespace Call

def revision : Call → StyleRevision
  | prepare revision _ _ _ => revision
  | ensure revision _ => revision
  | mark revision _ => revision

def authorization : Call → Option RenderAuthorization
  | prepare _ authorization _ _ => authorization
  | ensure _ _ => none
  | mark _ authorization => authorization

/-- The deadline of a call that has one. -/
def deadline? : Call → Option Instant
  | prepare _ _ deadline _ => some deadline
  | ensure _ deadline => some deadline
  | mark _ _ => none

def addlayer : Call → Option (AddLayerSource × UInt64)
  | prepare _ _ _ addlayer => addlayer
  | ensure _ _ => none
  | mark _ _ => none

end Call

/-- Why a call fails: one of its loads did, or what it makes of the tileset's source itself. -/
inductive Cause where
  | load (target : LoadTarget) (failure : ProfileFetchError) (via : Via)
  | source
deriving DecidableEq

inductive StyleAvailabilityError where
  | notFound (error : ProfilePreparationError)
  | unavailable (error : ProfilePreparationError)
deriving DecidableEq

/-- `into_availability_error`. -/
def ProfileFetchError.intoAvailabilityError (failure : ProfileFetchError) : StyleAvailabilityError :=
  if failure.negativeCacheable then .notFound failure.error else .unavailable failure.error

/-- What a call returns, with the fetches that its parts came from. -/
inductive Returned where
  | profile (profile : PreparedProfile) (style : Fetched) (tileset : Option (Fetched × String))
  | available (style : Fetched)
  | error (error : ProfilePreparationError) (cause : Cause)
  | unavailable (error : StyleAvailabilityError) (failure : ProfileFetchError) (via : Via)
  | marked

inductive CallerPhase where
  | loading (load : Load) (phase : LoadPhase)
  /-- The style is there, and the addlayer has a source: before its TileJSON is loaded. -/
  | styled (json : String) (style : Fetched)
  /-- The same, while the TileJSON is loaded. -/
  | loadingTileset (json : String) (style : Fetched) (load : Load) (phase : LoadPhase)
  /-- `mark_style_load_failed`, before the positive entry is invalidated. -/
  | invalidating
  /-- Before the error is inserted. -/
  | rejecting
  | returned (result : Returned)
  | cancelled

structure Caller where
  call : Call
  phase : CallerPhase

/-- What the source's JSON gives: its TileJSON URL, and the source it is rewritten to. -/
structure SourceEnv where
  /-- `source_url_from_addlayer_source`. -/
  sourceUrl : StyleId → AddLayerSource → Except ProfilePreparationError String
  /-- `rewrite_tileset_source_json`. -/
  rewrite : StyleId → AddLayerSource → String → String → Except ProfilePreparationError String

structure Preparer where
  now : Instant
  json : LoadKey → Option JsonEntry
  errors : LoadKey → Option ErrorEntry
  inflight : SingleFlight LoadKey SharedFailure
  callers : List Caller
  /-- What every fetch that has ended gave. -/
  fetches : List (Fetched × Except ProfileFetchError String)

/-! ## Steps of a load -/

/-- What a step of a load does, besides moving it on. -/
inductive Effect where
  | nothing
  /-- The caller's own fetch has ended. -/
  | fetched (result : Except ProfileFetchError String)
  | insertJson (json : String)
  | insertError (error : ProfilePreparationError) (source : ErrorSource)
  | invalidateJson
  | lead
  | drop (outcome : Option SharedFailure)

/-- An entry of the JSON cache that has not expired. -/
def Preparer.getJson (s : Preparer) (key : LoadKey) : Option JsonEntry :=
  (s.json key).filter fun entry => decide (s.now < entry.insertedAt + jsonCacheMaxAge)

/-- An entry of the error cache that has not expired. -/
def Preparer.getError (s : Preparer) (key : LoadKey) : Option ErrorEntry :=
  (s.errors key).filter fun entry => decide (s.now < entry.insertedAt + jsonNegativeCacheTtl)

/-- What `lookup` finds in one of the caches. -/
def Preparer.probe (s : Preparer) (key : LoadKey) : CacheKind → Option LoadEnd
  | .json => (s.getJson key).map fun entry => .json entry.json entry.source
  | .error => (s.getError key).map fun entry => .failed (.permanent entry.error) (.negative entry s.now)

/-- What storing a result does: only definitive failures are cached. -/
def storeEffect (me : Fetched) : Except ProfileFetchError String → Effect
  | .ok json => .insertJson json
  | .error failure => if failure.negativeCacheable then .insertError failure.error (.failure failure me) else .nothing

/-- What the followers are told: a failure of the whole attempt. -/
def sharedOutcome (me : Fetched) : Except ProfileFetchError String → Option SharedFailure
  | .ok _ => none
  | .error failure => if failure.isAttemptWide then some ⟨failure, me⟩ else none

/-- What the leader returns. -/
def ownEnd (me : Fetched) : Except ProfileFetchError String → LoadEnd
  | .ok json => .json json me
  | .error failure => .failed failure .own

/-- What `single_flight_load` does next of itself. -/
def Preparer.loadStep (s : Preparer) (me : Fetched) (load : Load) : LoadPhase → Option (Load × LoadPhase × Effect)
  | .probing second =>
    match s.probe me.key (if second then load.target.probes.2 else load.target.probes.1) with
    | some result => some (load, .ended result, .nothing)
    | none => some (load, if second then .beginning else .probing true, .nothing)
  | .beginning =>
    match s.inflight.entries me.key with
    | some channel => some (load, .waiting channel, .nothing)
    | none =>
      if load.fetch then some ({ load with fetch := false }, .fetching, .lead)
      else some (load, .panicked, .lead)
  | .fetching => none
  | .storing result => some (load, .releasing result, storeEffect me result)
  | .releasing result => some (load, .ended (ownEnd me result), .drop (sharedOutcome me result))
  | .waiting channel =>
    match s.inflight.channels channel with
    | .pending => none
    | .closed none => some (load, .probing false, .nothing)
    | .closed (some shared) => some (load, .ended (.failed shared.failure (.joined shared.source)), .nothing)
  | .ended _ => none
  | .panicked => none

/-- The end of the caller's own fetch. A deadline ends it only when it is over. -/
def fetchStep (styleId : StyleId) (load : Load) (late : Bool) (ending : FetchEnd) : LoadPhase → Option (Load × LoadPhase × Effect)
  | .fetching =>
    if ending = .deadline ∧ late = false then none
    else (fetchUncached styleId load.target ending).map fun result => (load, .storing result, .fetched result)
  | _ => none

/-- The caller's time is over while it follows a flight. -/
def timeoutStep (load : Load) (late : Bool) : LoadPhase → Option (Load × LoadPhase × Effect)
  | .waiting _ => if late then some (load, .ended (.failed .callerDeadline .own), .nothing) else none
  | _ => none

/-- What dropping the caller does to its load, which can be dropped while it awaits: one that leads gives its flight up. -/
def cancelEffect : LoadPhase → Option Effect
  | .fetching => some (.drop none)
  | .waiting _ => some .nothing
  | _ => none

/-! ## Steps of a caller -/

/-- What a caller makes of the end of its style's load. -/
def afterStyle (call : Call) (result : LoadEnd) : CallerPhase :=
  match call, result with
  | .ensure _ _, .failed failure via => .returned (.unavailable failure.intoAvailabilityError failure via)
  | .ensure _ _, .json _ source => .returned (.available source)
  | call, .failed failure via => .returned (.error failure.error (.load (.style call.revision) failure via))
  | call, .json json source =>
    match call.addlayer with
    | some _ => .styled json source
    | none => .returned (.profile ⟨call.revision, credentialPartition call.authorization, json, none⟩ source none)

/-- What a caller makes of the end of its tileset's load. -/
def afterTileset (env : SourceEnv) (call : Call) (json : String) (style : Fetched) (addlayer : AddLayerSource × UInt64)
    (url : String) :
    LoadEnd → CallerPhase
  | .failed failure via => .returned (.error (failure.error.intoSource addlayer.2) (.load (.tileset url) failure via))
  | .json tilejson source =>
    match env.rewrite call.revision.id addlayer.1 url tilejson with
    | .error error => .returned (.error (error.intoSource addlayer.2) .source)
    | .ok rewritten =>
      .returned (.profile
        ⟨call.revision, credentialPartition call.authorization, json, some ⟨addlayer.1.tilesetId, rewritten⟩⟩ style
          (some (source, tilejson)))

/-- A new call of `single_flight_load`. -/
def Load.start (target : LoadTarget) : Load := ⟨target, true⟩

/-- What a caller does next of itself: its load's next step, or what it makes of how that ended. -/
def Preparer.callerStep (env : SourceEnv) (s : Preparer) (i : Nat) (c : Caller) : Option (CallerPhase × LoadKey × Effect) :=
  let keyOf (target : LoadTarget) : LoadKey := ⟨target, credentialPartition c.call.authorization⟩
  match c.phase with
  | .loading load (.ended result) => some (afterStyle c.call result, keyOf load.target, .nothing)
  | .loading load phase =>
    (s.loadStep ⟨i, load.target, c.call.authorization⟩ load phase).map fun (load', phase', effect) =>
      (.loading load' phase', keyOf load.target, effect)
  | .styled json style =>
    match c.call.addlayer with
    | none => none
    | some addlayer =>
      match env.sourceUrl c.call.revision.id addlayer.1 with
      | .error error => some (.returned (.error (error.intoSource addlayer.2) .source), keyOf (.style c.call.revision), .nothing)
      | .ok url => some (.loadingTileset json style (.start (.tileset url)) (.probing false), keyOf (.tileset url), .nothing)
  | .loadingTileset json style load (.ended result) =>
    match c.call.addlayer, load.target with
    | some addlayer, .tileset url => some (afterTileset env c.call json style addlayer url result, keyOf load.target, .nothing)
    | _, _ => none
  | .loadingTileset json style load phase =>
    (s.loadStep ⟨i, load.target, c.call.authorization⟩ load phase).map fun (load', phase', effect) =>
      (.loadingTileset json style load' phase', keyOf load.target, effect)
  | .invalidating => some (.rejecting, keyOf (.style c.call.revision), .invalidateJson)
  | .rejecting =>
    some (.returned .marked, keyOf (.style c.call.revision),
      .insertError (.styleUnavailable c.call.revision.id "MapLibre rejected the prepared style")
        (.rejected c.call.revision c.call.authorization))
  | .returned _ => none
  | .cancelled => none

/-- Whether the caller's deadline is over. -/
def Preparer.late (s : Preparer) (c : Caller) : Bool := c.call.deadline?.any fun deadline => decide (deadline ≤ s.now)

/-- What happens to the load of a caller from outside. -/
def loadEvent (c : Caller) (event : Load → LoadPhase → Option (Load × LoadPhase × Effect)) :
    Option (CallerPhase × LoadKey × Effect) :=
  match c.phase with
  | .loading load phase =>
    (event load phase).map fun (load', phase', effect) =>
      (.loading load' phase', ⟨load.target, credentialPartition c.call.authorization⟩, effect)
  | .loadingTileset json style load phase =>
    (event load phase).map fun (load', phase', effect) =>
      (.loadingTileset json style load' phase', ⟨load.target, credentialPartition c.call.authorization⟩, effect)
  | _ => none

/-- What dropping a caller does. -/
def cancelStep (c : Caller) : Option (CallerPhase × LoadKey × Effect) :=
  match c.phase with
  | .loading load phase =>
    (cancelEffect phase).map fun effect => (.cancelled, ⟨load.target, credentialPartition c.call.authorization⟩, effect)
  | .loadingTileset _ _ load phase =>
    (cancelEffect phase).map fun effect => (.cancelled, ⟨load.target, credentialPartition c.call.authorization⟩, effect)
  | _ => none

/-! ## The system -/

inductive Action where
  | call (call : Call)
  | step (i : Nat)
  | fetched (i : Nat) (ending : FetchEnd)
  | timeout (i : Nat)
  | cancel (i : Nat)
  | advance (d : Duration)
  | evictJson (key : LoadKey)
  | evictError (key : LoadKey)

/-- Where a call starts. -/
def Call.start (call : Call) : CallerPhase :=
  match call with
  | .mark _ _ => .invalidating
  | call => .loading (.start (.style call.revision)) (.probing false)

namespace Preparer

def perform (s : Preparer) (me : Fetched) (key : LoadKey) : Effect → Preparer
  | .nothing => s
  | .fetched result => { s with fetches := (me, result) :: s.fetches }
  | .insertJson json => { s with json := Function.update s.json key (some ⟨json, s.now, me⟩) }
  | .insertError error source => { s with errors := Function.update s.errors key (some ⟨error, s.now, source⟩) }
  | .invalidateJson => { s with json := Function.update s.json key none }
  | .lead => { s with inflight := s.inflight.lead key }
  | .drop outcome => { s with inflight := s.inflight.dropGuard key outcome }

/-- What a caller's step does to everything. -/
def apply (s : Preparer) (i : Nat) (c : Caller) (move : CallerPhase × LoadKey × Effect) : Preparer :=
  let done := s.perform ⟨i, move.2.1.target, c.call.authorization⟩ move.2.1 move.2.2
  { done with callers := s.callers.set i { c with phase := move.1 } }

def step (env : SourceEnv) (s : Preparer) : Action → Option Preparer
  | .call call => some { s with callers := s.callers ++ [⟨call, call.start⟩] }
  | .step i => (s.callers[i]?).bind fun c => (s.callerStep env i c).map (s.apply i c)
  | .fetched i ending => (s.callers[i]?).bind fun c =>
    (loadEvent c fun load phase => fetchStep c.call.revision.id load (s.late c) ending phase).map (s.apply i c)
  | .timeout i => (s.callers[i]?).bind fun c => (loadEvent c fun load phase => timeoutStep load (s.late c) phase).map
      (s.apply i c)
  | .cancel i => (s.callers[i]?).bind fun c => (cancelStep c).map (s.apply i c)
  | .advance d => some { s with now := s.now + d }
  | .evictJson key => some { s with json := Function.update s.json key none }
  | .evictError key => some { s with errors := Function.update s.errors key none }

end Preparer

/-- `MapLibreProfilePreparer::new_with_auth_provider_origin`, at a time. -/
def preparer (env : SourceEnv) (start : Instant) : Machine Preparer Action where
  init := ⟨start, fun _ => none, fun _ => none, .empty, [], []⟩
  step := Preparer.step env

end Biei.Profile
