import Biei.Auth.Registry
import Biei.Lib.Run

/-!
# The verifier

`DeliveryAuth` of `mmpf-auth`: the cache of registries, the revisions that are installed, the times before which nothing is tried
again, and the single flight of refreshes, which are separate pieces of state. A step of the machine is what a caller does to one
of them; what the object store answers, and when, is the environment's choice, and so is what the cache evicts.
-/

namespace Biei

def maxSnapshotBytes : Nat := 16 * 1024 * 1024

def maxConcurrentRegistryLoads : Nat := 8

def refreshInterval : Duration := 60 * 1000000000

def refreshFailureCooldown : Duration := 5 * 1000000000

/-- A snapshot with the body it was parsed from. -/
structure ParsedRegistry (env : RegistryEnv) (registryId : String) where
  body : Bytes
  snapshot : RegistrySnapshot
  parsed : RegistrySnapshot.parse env registryId body = .ok snapshot

/-- `CachedRegistry`; its weight is left to the cache. -/
structure CachedRegistry (env : RegistryEnv) (registryId : String) where
  registry : ParsedRegistry env registryId
  etag : Option String
  refreshAfter : Instant

structure InstalledRevision where
  revision : UInt64
  bodySha256 : Digest
deriving DecidableEq

variable {env : RegistryEnv} {registryId : String}

/-- The revision a snapshot is installed as. -/
def ParsedRegistry.revision (p : ParsedRegistry env registryId) : InstalledRevision := ⟨p.snapshot.revision, env.sha256 p.body⟩

/-! ## Callers -/

/-- Where the leader of a refresh stands. -/
inductive RefreshPhase (env : RegistryEnv) (registryId : String) where
  /-- Before the permit is taken. -/
  | acquiring
  /-- Before the cache is read. -/
  | reading
  /-- The request is made; its answer is awaited. -/
  | requesting (previous : Option (CachedRegistry env registryId))
  /-- The body is awaited. -/
  | fetching (etag : Option String)
  /-- The object was not modified. -/
  | notModified (previous : CachedRegistry env registryId)
  | parsed (p : ParsedRegistry env registryId) (etag : Option String)
  /-- The revision was compared with the installed one. -/
  | checked (p : ParsedRegistry env registryId) (etag : Option String)
  /-- The revision is installed. -/
  | installed (p : ParsedRegistry env registryId) (etag : Option String)
  /-- There is no cold retry time any more. -/
  | warmed (p : ParsedRegistry env registryId) (etag : Option String)
  /-- `refresh` has failed; `defer_failed_refresh` is next. -/
  | failing
  | deferring (stale : CachedRegistry env registryId)
  | cooling
  /-- The error is given to the followers. -/
  | completing
  /-- The snapshot is returned, and the flight ends. -/
  | returning (p : ParsedRegistry env registryId)

/-- Where a call of `snapshot` stands. -/
inductive SnapshotPhase (env : RegistryEnv) (registryId : String) where
  | start
  /-- The cache had nothing fresh at that time. -/
  | missed (now : Instant)
  /-- The cache had nothing at all. -/
  | cold (now : Instant)
  | electing
  | following (leader : Nat)
  | leading (phase : RefreshPhase env registryId)
  | done (result : Option (ParsedRegistry env registryId))
  | decided
  | dropped

/-- The caller is the leader of a refresh. -/
def SnapshotPhase.leads : SnapshotPhase env registryId → Bool
  | .leading _ => true
  | _ => false

/-- The caller holds one of the refresh permits. -/
def SnapshotPhase.holdsPermit : SnapshotPhase env registryId → Bool
  | .leading .acquiring => false
  | .leading .failing => false
  | .leading (.deferring _) => false
  | .leading .cooling => false
  | .leading .completing => false
  | .leading (.returning _) => false
  | .leading _ => true
  | _ => false

/-- A future is dropped before it is polled, or where it awaits. -/
def SnapshotPhase.awaits : SnapshotPhase env registryId → Bool
  | .start => true
  | .following _ => true
  | .leading (.requesting _) => true
  | .leading (.fetching _) => true
  | _ => false

/-! ## One registry -/

/-- The state that is kept for a registry, and all it ever installed, the last first. -/
structure RegistryState (env : RegistryEnv) (registryId : String) where
  cache : Option (CachedRegistry env registryId)
  coldRetryAfter : Option Instant
  installed : Option InstalledRevision
  leader : Option Nat
  installs : List (ParsedRegistry env registryId)

def RegistryState.new : RegistryState env registryId := ⟨none, none, none, none, []⟩

/-- How a flight ends for its followers: with nothing to tell, or with the error of its leader. -/
inductive FlightEnd where
  | closed
  | failed
deriving DecidableEq

/-- What the object store answers to a request: an error and a timeout are one. -/
inductive StoreAnswer where
  | ok (size : Nat) (etag : Option String)
  | notModified
  | failed

/-- What a step of a caller takes from outside. -/
inductive AuthInput where
  | go
  | clock (now : Instant)
  | answer (a : StoreAnswer)
  | body (b : Option Bytes)

/-- The check against the installed revision: no rollback, and no other body under the same revision. -/
def RegistryState.accepts (reg : RegistryState env registryId) (p : ParsedRegistry env registryId) : Bool :=
  match reg.installed with
  | none => true
  | some previous =>
    !(p.snapshot.revision < previous.revision) &&
      !(p.snapshot.revision == previous.revision && env.sha256 p.body != previous.bodySha256)

namespace RegistryState

/-- The body of a response, parsed. -/
def fetched (env : RegistryEnv) (registryId : String) (etag : Option String) (body : Bytes) : RefreshPhase env registryId :=
  if body.length > maxSnapshotBytes then .failing
  else
    match h : RegistrySnapshot.parse env registryId body with
    | .error _ => .failing
    | .ok snapshot => .parsed ⟨body, snapshot, h⟩ etag

/-- One step of the leader, and of what it does when it is through. -/
def refresh (reg : RegistryState env registryId) (permitFree : Bool) :
    RefreshPhase env registryId → AuthInput → Option (RegistryState env registryId × SnapshotPhase env registryId)
  | .acquiring, .go => some (reg, .leading (if permitFree then .reading else .failing))
  | .reading, .go => some (reg, .leading (.requesting reg.cache))
  | .requesting previous, .answer a =>
    match a, previous with
    | .ok size etag, _ => some (reg, .leading (if size > maxSnapshotBytes then .failing else .fetching etag))
    | .notModified, some previous => some (reg, .leading (.notModified previous))
    | .notModified, none => some (reg, .leading .failing)
    | .failed, _ => some (reg, .leading .failing)
  | .fetching etag, .body b =>
    match b with
    | none => some (reg, .leading .failing)
    | some body => some (reg, .leading (fetched env registryId etag body))
  | .notModified previous, .clock now =>
    some ({ reg with cache := some { previous with refreshAfter := now + refreshInterval } },
      .leading (.returning previous.registry))
  | .parsed p etag, .go => some (reg, .leading (if reg.accepts p then .checked p etag else .failing))
  | .checked p etag, .go =>
    some ({ reg with installed := some p.revision, installs := p :: reg.installs }, .leading (.installed p etag))
  | .installed p etag, .go => some ({ reg with coldRetryAfter := none }, .leading (.warmed p etag))
  | .warmed p etag, .clock now =>
    some ({ reg with cache := some ⟨p, etag, now + refreshInterval⟩ }, .leading (.returning p))
  | .failing, .go =>
    match reg.cache with
    | some stale => some (reg, .leading (.deferring stale))
    | none => some (reg, .leading .cooling)
  | .deferring stale, .clock now =>
    some ({ reg with cache := some { stale with refreshAfter := now + refreshFailureCooldown } },
      .leading (.returning stale.registry))
  | .cooling, .clock now => some ({ reg with coldRetryAfter := some (now + refreshFailureCooldown) }, .leading .completing)
  | .completing, .go => some ({ reg with leader := none }, .done none)
  | .returning p, .go => some ({ reg with leader := none }, .done (some p))
  | _, _ => none

/-- One step of the `i`-th caller. -/
def advance (reg : RegistryState env registryId) (permitFree : Bool) (flights : Nat → Option FlightEnd) (i : Nat) :
    SnapshotPhase env registryId → AuthInput → Option (RegistryState env registryId × SnapshotPhase env registryId)
  | .start, .clock now =>
    match reg.cache with
    | some cached => some (reg, if cached.refreshAfter > now then .done (some cached.registry) else .missed now)
    | none => some (reg, .missed now)
  | .missed now, .go => some (reg, if reg.cache.isSome then .electing else .cold now)
  | .cold now, .go => some (reg, if reg.coldRetryAfter.any (· > now) then .done none else .electing)
  | .electing, .go =>
    match reg.leader with
    | some leader => some (reg, .following leader)
    | none => some ({ reg with leader := some i }, .leading .acquiring)
  | .following leader, .go =>
    match flights leader with
    | none => none
    | some .closed => some (reg, .start)
    | some .failed => some (reg, .done none)
  | .leading phase, input => reg.refresh permitFree phase input
  | _, _ => none

end RegistryState

/-! ## The verifier of all registries -/

/-- A call of `authorize` whose token names a configured registry. -/
structure AuthCaller (env : RegistryEnv) where
  headers : HeaderMap
  presentation : Presentation
  requiredNamespace : Option String
  action : DeliveryAction
  phase : SnapshotPhase env presentation.registryId

/-- A request that was decided, and by which snapshot. -/
structure AuthDecision (env : RegistryEnv) where
  presentation : Presentation
  registry : ParsedRegistry env presentation.registryId
  result : Except AuthFailure AuthorizedDelivery

structure DeliveryAuth (env : RegistryEnv) where
  registries : (registryId : String) → RegistryState env registryId
  /-- How the flight of each leader has ended, if it has. -/
  flights : Nat → Option FlightEnd
  permits : Nat
  callers : List (AuthCaller env)
  /-- What was decided so far. -/
  decisions : List (AuthDecision env)

inductive AuthAction where
  | authorize (headers : HeaderMap) (query requiredNamespace : Option String) (action : DeliveryAction)
  | advance (i : Nat) (input : AuthInput)
  | decide (i : Nat)
  | cancel (i : Nat)
  | evict (registryId : String)

namespace DeliveryAuth

def new : DeliveryAuth env := ⟨fun _ => .new, fun _ => none, maxConcurrentRegistryLoads, [], []⟩

/-- The state after the `i`-th caller has gone from one phase to another: permits are given back, and the flight of a leader that
is through has ended. -/
def moved (s : DeliveryAuth env) (i : Nat) (c : AuthCaller env) (reg : RegistryState env c.presentation.registryId)
    (phase : SnapshotPhase env c.presentation.registryId) : DeliveryAuth env :=
  { s with
    registries := Function.update s.registries c.presentation.registryId reg
    callers := s.callers.set i { c with phase }
    permits := s.permits + (if c.phase.holdsPermit then 1 else 0) - (if phase.holdsPermit then 1 else 0)
    flights :=
      if c.phase.leads && !phase.leads then
        Function.update s.flights i (some (match c.phase with | .leading .completing => .failed | _ => .closed))
      else s.flights }

def step (env : RegistryEnv) (configured : String → Bool) (s : DeliveryAuth env) : AuthAction → Option (DeliveryAuth env)
  | .authorize headers query requiredNamespace action =>
    match present env.toAuthEnv configured headers query with
    | .error _ => some s
    | .ok p => some { s with callers := s.callers ++ [⟨headers, p, requiredNamespace, action, .start⟩] }
  | .advance i input =>
    match s.callers[i]? with
    | none => none
    | some c =>
      match (s.registries c.presentation.registryId).advance (s.permits > 0) s.flights i c.phase input with
      | none => none
      | some (reg, phase) => some (s.moved i c reg phase)
  | .decide i =>
    match s.callers[i]? with
    | none => none
    | some c =>
      match c.phase with
      | .done (some registry) =>
        let result := decideRequest env.toAuthEnv registry.snapshot c.headers c.presentation c.requiredNamespace c.action
        some { s.moved i c (s.registries c.presentation.registryId) .decided with
          decisions := ⟨c.presentation, registry, result⟩ :: s.decisions }
      | _ => none
  | .cancel i =>
    match s.callers[i]? with
    | none => none
    | some c =>
      if c.phase.awaits then
        let reg := s.registries c.presentation.registryId
        some (s.moved i c (if c.phase.leads then { reg with leader := none } else reg) .dropped)
      else none
  | .evict registryId =>
    some { s with registries := Function.update s.registries registryId { s.registries registryId with cache := none } }

def machine (env : RegistryEnv) (configured : String → Bool) : Machine (DeliveryAuth env) AuthAction :=
    ⟨.new, step env configured⟩

end DeliveryAuth

end Biei
