import Biei.Http.Headers
import Biei.Lib.RefreshGate
import Biei.Lib.Slice

/-!
# Peers of a tile server

`routing.rs` and `peer.rs`: the peers a request may be forwarded to, by rendezvous hashing over the peers that are not in backoff,
and the fetch from one of them, which notes whether the peer has to be left alone for a while.
-/

namespace Biei.Storage

/-- A member of the cluster; the address is what it is reached at. -/
structure Peer where
  id : String
  addr : String
deriving DecidableEq

/-! ## Placement -/

structure ScoredPeer where
  score : UInt64
  peer : Peer
deriving DecidableEq

/-- The order of `ScoredPeerRef`: the larger score first, then the smaller id. -/
def ScoredPeer.le (a b : ScoredPeer) : Bool := decide (b.score < a.score) ||
    (a.score == b.score && decide (a.peer.id ≤ b.peer.id))

structure HrwRouter where
  candidateCount : Nat
  tileGroupSize : Nat
deriving DecidableEq

namespace HrwRouter

/-- `HrwRouter::new`. -/
def new (candidateCount tileGroupSize : Nat) : HrwRouter := ⟨max candidateCount 1, max tileGroupSize 1⟩

/-- What `hrw_weight` hashes. -/
def weightInput (key : String) (groupId : Nat) (nodeId : String) : Bytes :=
  key.toUTF8.toList ++ [0xff] ++ leBytes 8 groupId ++ [0xfe] ++ nodeId.toUTF8.toList

/-- The body of the loop of `route_group`, with the heap as the list of what it holds in ascending order. -/
def push (router : HrwRouter) (weight : String → UInt64) (top : List ScoredPeer) (peer : Peer) : List ScoredPeer :=
  let top := top.orderedInsert (fun a b => a.le b) ⟨weight peer.id, peer⟩
  if top.length > router.candidateCount then top.dropLast else top

def routeGroup (router : HrwRouter) (xxHash64 : Bytes → UInt64) (peers : List Peer) (key : String) (groupId : Nat) :
    List ScoredPeer :=
  peers.foldl (router.push fun id => xxHash64 (weightInput key groupId id)) []

def routeTile (router : HrwRouter) (xxHash64 : Bytes → UInt64) (peers : List Peer) (tilesetId : String) (tileId : UInt64) :
    List ScoredPeer :=
  router.routeGroup xxHash64 peers tilesetId (tileId.toNat / router.tileGroupSize)

end HrwRouter

/-! ## Backoff -/

/-- `peer_resource_label`. -/
inductive PeerResource where
  | tile
  | bootstrap
  | leaf
  | style
  | glyph
  | sprite
  | derived
  | other
deriving DecidableEq

def peerRetryBackoff : Duration := second

/-- `retryable_failures`: until when a peer is left alone for a resource. -/
abbrev RetryableFailures := List ((String × PeerResource) × Instant)

namespace RetryableFailures

/-- What is left of the failures at a time. -/
def retained (failures : RetryableFailures) (now : Instant) : RetryableFailures := failures.filter fun f => decide (now < f.2)

def contains (failures : RetryableFailures) (peerId : String) (resource : PeerResource) : Bool :=
  failures.any fun f => f.1 == (peerId, resource)

/-- The peer is in backoff for the resource. -/
def backedOff (failures : RetryableFailures) (now : Instant) (peerId : String) (resource : PeerResource) : Bool :=
  (failures.retained now).contains peerId resource

def remove (failures : RetryableFailures) (peerId : String) (resource : PeerResource) : RetryableFailures :=
  failures.filter fun f => f.1 != (peerId, resource)

def insert (failures : RetryableFailures) (peerId : String) (resource : PeerResource) (retryAt : Instant) : RetryableFailures :=
  ((peerId, resource), retryAt) :: failures.remove peerId resource

end RetryableFailures

/-- `available_peers`, of the failures that are left: all peers when nobody has failed for the resource. -/
def availablePeers (failures : RetryableFailures) (peers : List Peer) (resource : PeerResource) : Option (List Peer) :=
  if failures.any fun f => f.1.2 == resource then some (peers.filter fun peer => !failures.contains peer.id resource) else none

/-- `route_with_backoff`, of the failures that are left. -/
def routeWithBackoff (failures : RetryableFailures) (peers : List Peer) (resource : PeerResource)
    (route : List Peer → List ScoredPeer) :
    List ScoredPeer :=
  match availablePeers failures peers resource with
  | none => route peers
  | some available => route available

/-! ## Fetching from a peer -/

inductive InternalTileSource where
  | cache
  | backend
deriving DecidableEq

/-- An answer, as far as a tile is read from it. -/
structure InternalFetchResponse where
  bytes : Bytes
  tileSource : Option InternalTileSource
deriving DecidableEq

inductive PeerFetchError where
  | notFound
  | providerNotFound
  | providerGone
  | retryable (message : String)
  | fatal (message : String)
deriving DecidableEq

def PeerFetchError.isRetryable : PeerFetchError → Bool
  | retryable _ => true
  | _ => false

abbrev PeerAnswer := Except PeerFetchError InternalFetchResponse

/-- Whether a peer has failed in a way that puts it in backoff. -/
def PeerAnswer.isRetryable : PeerAnswer → Bool
  | .error err => err.isRetryable
  | .ok _ => false

/-- What `fetch_from_peer` notes of the answer, which comes at a time. -/
def noteAnswer (failures : RetryableFailures) (now : Instant) (peer : Peer) (resource : PeerResource) (answer : PeerAnswer) :
    RetryableFailures :=
  if answer.isRetryable then failures.insert peer.id resource (now + peerRetryBackoff) else failures.remove peer.id resource

end Biei.Storage

/-! ## The peer snapshot cache

`PeerSnapshotCache` of `peer.rs`: the same protocol as the cluster view cache's, for a loader that each caller brings and that can
be called once only. There are no deadlines and no epochs. -/

namespace Biei

structure CachedPeerSnapshot (P : Type) where
  storedAt : Instant
  peers : P
deriving DecidableEq

structure PeerSnapshotCacheState (P : Type) where
  cached : Option (CachedPeerSnapshot P)
  loading : Bool
deriving DecidableEq

/-- `fresh_peer_snapshot`. -/
def freshPeerSnapshot {P : Type} (state : PeerSnapshotCacheState P) (ttl : Duration) (now : Instant) : Option P :=
  state.cached.bind fun snapshot => if now - snapshot.storedAt < ttl then some snapshot.peers else none

inductive PeerLoadPhase (P : Type) where
  | looping
  | subscribing
  | electing (seen : Nat)
  /-- `loading` is set, the loader is to be called. -/
  | claimed
  | fetching
  | fetched (peers : P)
  | abandoning
  /-- `loading` is cleared, the version is to be raised; a caller that is cancelled has no peers. -/
  | announcing (peers : Option P)
  | waiting (seen : Nat)
  | returned (peers : P)
  | cancelled
  /-- `load.take()` found nothing. -/
  | panicked
deriving DecidableEq

/-- A call of `get_or_load`: whether it has its loader still, and how often it has called one. -/
structure PeerLoadCaller (P : Type) where
  load : Bool
  calls : Nat
  phase : PeerLoadPhase P
deriving DecidableEq

structure PeerSnapshotCache (P : Type) where
  ttl : Duration
  state : PeerSnapshotCacheState P
  changed : Nat
  callers : List (PeerLoadCaller P)
  now : Instant

inductive PeerLoadStep (P : Type) where
  | get
  | subscribe
  | elect
  | callLoader
  | receive (peers : P)
  | store
  | abandon
  | announce
  | wake
  | cancel

inductive PeerLoadAction (P : Type) where
  | call
  | move (i : Nat) (step : PeerLoadStep P)
  | advance (d : Duration)

namespace PeerSnapshotCache

variable {P : Type}

def new (ttl : Duration) : PeerSnapshotCache P := ⟨ttl, ⟨none, false⟩, 0, [], 0⟩

def setPhase (s : PeerSnapshotCache P) (i : Nat) (caller : PeerLoadCaller P) (phase : PeerLoadPhase P) : PeerSnapshotCache P :=
  { s with callers := s.callers.set i { caller with phase := phase } }

def get (s : PeerSnapshotCache P) : Option P := freshPeerSnapshot s.state s.ttl s.now

/-- The look under the lock that a subscribed caller takes. -/
def elect (s : PeerSnapshotCache P) (i : Nat) (caller : PeerLoadCaller P) (seen : Nat) : PeerSnapshotCache P :=
  match s.get with
  | some peers => s.setPhase i caller (.returned peers)
  | none =>
    if s.state.loading then s.setPhase i caller (.waiting seen)
    else { s.setPhase i caller .claimed with state := { s.state with loading := true } }

/-- `load.take().expect(..)()`; a panic drops the guard. -/
def callLoader (s : PeerSnapshotCache P) (i : Nat) (caller : PeerLoadCaller P) : PeerSnapshotCache P :=
  if caller.load then { s with callers := s.callers.set i ⟨false, caller.calls + 1, .fetching⟩ }
  else s.setPhase i caller .panicked

/-- `store`, up to the notification. -/
def store (s : PeerSnapshotCache P) (i : Nat) (caller : PeerLoadCaller P) (peers : P) : PeerSnapshotCache P :=
  { s.setPhase i caller (.announcing (some peers)) with state := ⟨some ⟨s.now, peers⟩, false⟩ }

def callerStep (s : PeerSnapshotCache P) (i : Nat) (caller : PeerLoadCaller P) (step : PeerLoadStep P) :
    Option (PeerSnapshotCache P) :=
  match step, caller.phase with
  | .get, .looping =>
    match s.get with
    | some peers => some (s.setPhase i caller (.returned peers))
    | none => some (s.setPhase i caller .subscribing)
  | .subscribe, .subscribing => some (s.setPhase i caller (.electing s.changed))
  | .elect, .electing seen => some (s.elect i caller seen)
  | .callLoader, .claimed => some (s.callLoader i caller)
  | .receive peers, .fetching => some (s.setPhase i caller (.fetched peers))
  | .store, .fetched peers => some (s.store i caller peers)
  | .abandon, .abandoning => some { s.setPhase i caller (.announcing none) with state := { s.state with loading := false } }
  | .announce, .announcing peers =>
    some { s.setPhase i caller (peers.elim .cancelled .returned) with changed := s.changed + 1 }
  | .wake, .waiting seen => if s.changed ≠ seen then some (s.setPhase i caller .looping) else none
  | .cancel, .fetching => some (s.setPhase i caller .abandoning)
  | .cancel, .waiting _ => some (s.setPhase i caller .cancelled)
  | _, _ => none

def step (s : PeerSnapshotCache P) : PeerLoadAction P → Option (PeerSnapshotCache P)
  | .call => some { s with callers := s.callers ++ [⟨true, 0, .looping⟩] }
  | .move i m => s.callers[i]?.bind fun caller => s.callerStep i caller m
  | .advance d => some { s with now := s.now + d }

def machine (ttl : Duration) : Machine (PeerSnapshotCache P) (PeerLoadAction P) where
  init := new ttl
  step := step

end PeerSnapshotCache

end Biei
