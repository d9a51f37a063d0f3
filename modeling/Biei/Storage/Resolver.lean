import Biei.Pmtiles.Bootstrap
import Biei.Storage.Peer

/-!
# The resource resolver

`ResourceResolver::route_tile`: a tile is looked up in the node's own cache, then asked of the peers that rendezvous hashing
names, and read from the shared archives when no peer decides. The archives never change; a read of them either fails, for
whatever reason, or gives what they hold.
-/

namespace Biei

/-- A tile as it is served, with what the archive's header says of it. -/
def TileData.of (header : Header) (bytes : Bytes) : TileData :=
  ⟨bytes, header.tileType.contentType, header.tileCompression.contentEncoding⟩

end Biei

namespace Biei.Storage

/-! ## The shared archives -/

structure TilesetId where
  id : String
deriving DecidableEq

/-- What an archive holds. -/
structure Archive where
  header : Header
  tile : UInt64 → Option Bytes

/-- The archives that every node reads. -/
abbrev ArchiveSet := TilesetId → Option Archive

/-- The tile that the archives hold. -/
def ArchiveSet.tile (archives : ArchiveSet) (tilesetId : TilesetId) (tileId : UInt64) : Option TileData :=
  (archives tilesetId).bind fun archive => (archive.tile tileId).map (.of archive.header)

/-- An error of the reader: the typed error in its chain, if there is one, and the text of the chain. -/
structure ReaderError where
  storage : Option StorageError
  chain : String
deriving DecidableEq

inductive PmtilesReadSource where
  | cache
  | backend
deriving DecidableEq

/-- `PmtilesReader::header`, which may fail. -/
def ArchiveSet.header (archives : ArchiveSet) (tilesetId : TilesetId) (failure : Option ReaderError) :
    Except ReaderError (Option Header) :=
  match failure with
  | some err => .error err
  | none => .ok ((archives tilesetId).map (·.header))

/-- `PmtilesReader::get_tile`, which may fail. -/
def ArchiveSet.getTile (archives : ArchiveSet) (tilesetId : TilesetId) (tileId : UInt64) (failure : Option ReaderError) :
    Except ReaderError (Option TileData) :=
  match failure with
  | some err => .error err
  | none => .ok (archives.tile tilesetId tileId)

/-! ## Errors and sources -/

inductive TilesetError where
  | upstream (message : String)
  | retryableUpstream (message : String)
  | timeout (message : String)
  | overloaded (message : String)
  | miss
  | internal (message : String)
deriving DecidableEq

def TilesetError.isRetryable : TilesetError → Bool
  | retryableUpstream _ => true
  | overloaded _ => true
  | _ => false

def internalTilesetError (err : ReaderError) : TilesetError :=
  match err.storage with
  | some (.timeout _) => .timeout err.chain
  | some (.overloaded _) => .overloaded err.chain
  | some (.backend _) => .retryableUpstream err.chain
  | _ => .internal err.chain

/-- What `load_tile_from_peer` makes of a peer's error. -/
def peerTilesetError : PeerFetchError → TilesetError
  | .notFound => .miss
  | .retryable message => .retryableUpstream message
  | .providerNotFound => .upstream "provider resource not found"
  | .providerGone => .upstream "provider resource gone"
  | .fatal message => .upstream message

inductive TileSource where
  | selfTileCache
  | selfChunkCache
  | selfBackend
  | negativeCache
  | peerCache
  | peerBackend
  | selfMiss
  | peerMiss
deriving DecidableEq

/-! ## The node -/

structure TileCacheKey where
  tilesetId : TilesetId
  tileId : UInt64
deriving DecidableEq

inductive CachedTile where
  | found (tile : TileData)
  | notFound
deriving DecidableEq

inductive PeerTileCachePolicy where
  | entryAndOwner
  | ownerOnly
deriving DecidableEq

structure ResolverConfig where
  selfNodeId : String
  router : HrwRouter
  peerTileCachePolicy : PeerTileCachePolicy
  xxHash64 : Bytes → UInt64

structure Resolver where
  now : Instant
  tileCache : TileCacheKey → Option CachedTile
  failures : RetryableFailures

namespace Resolver

def cacheTileHit (s : Resolver) (key : TileCacheKey) (tile : TileData) : Resolver :=
  { s with tileCache := Function.update s.tileCache key (some (.found tile)) }

def cacheTileMiss (s : Resolver) (key : TileCacheKey) : Resolver :=
  { s with tileCache := Function.update s.tileCache key (some .notFound) }

end Resolver

/-! ## Routing a tile -/

/-- One forward: how long the peer takes, what it answers, how long reading the archive's header takes after that, and whether it
fails. -/
structure Forward where
  elapsed : Duration
  answer : PeerAnswer
  headerElapsed : Duration
  headerFailure : Option ReaderError

/-- What a request meets: the peers in the directory, its forwards one by one, and how the local read ends if there is one. -/
structure Encounter where
  peers : List Peer
  forward : Nat → Forward
  readFailure : Option ReaderError
  readSource : PmtilesReadSource

/-- A peer that was contacted, when, what was known of failures then, and what came of it. -/
structure Contact where
  peer : Peer
  time : Instant
  failures : RetryableFailures
  forward : Forward

abbrev TileResult := Except TilesetError (Option TileData × TileSource)

/-- What a request returns, whom it contacted, and the node afterwards. -/
structure Routed where
  result : TileResult
  contacts : List Contact
  node : Resolver

/-- `load_local_tile_with_source`. -/
def loadLocalTileWithSource (archives : ArchiveSet) (met : Encounter) (key : TileCacheKey) (s : Resolver) : Routed :=
  match archives.getTile key.tilesetId key.tileId met.readFailure with
  | .error err => ⟨.error (internalTilesetError err), [], s⟩
  | .ok none => ⟨.ok (none, .selfMiss), [], s.cacheTileMiss key⟩
  | .ok (some tile) =>
    ⟨.ok (some tile, if met.readSource = .cache then .selfChunkCache else .selfBackend), [], s.cacheTileHit key tile⟩

/-- `load_tile_from_peer`, once the peer has answered. -/
def loadTileFromPeer (config : ResolverConfig) (archives : ArchiveSet) (key : TileCacheKey) (forward : Forward) (s : Resolver) :
    Except TilesetError (Option (TileData × InternalTileSource)) × Resolver :=
  match forward.answer with
  | .error err => (.error (peerTilesetError err), s)
  | .ok response =>
    let s := { s with now := s.now + forward.headerElapsed }
    match archives.header key.tilesetId forward.headerFailure with
    | .error err => (.error (internalTilesetError err), s)
    | .ok none => (.ok none, s)
    | .ok (some header) =>
      let tile := TileData.of header response.bytes
      (.ok (some (tile, response.tileSource.getD .backend)),
        if config.peerTileCachePolicy = .entryAndOwner then s.cacheTileHit key tile else s)

/-- The node after a peer's answer, as `fetch_from_peer` leaves it. -/
def afterFetch (peer : Peer) (forward : Forward) (s : Resolver) : Resolver :=
  let now := s.now + forward.elapsed
  { s with now := now, failures := noteAnswer s.failures now peer .tile forward.answer }

/-- The loop of `route_tile` over what is left of the candidates, after `n` forwards. -/
def routeCandidates (config : ResolverConfig) (archives : ArchiveSet) (met : Encounter) (key : TileCacheKey) :
    Nat → List ScoredPeer → Resolver → Routed
  | _, [], s => loadLocalTileWithSource archives met key s
  | n, candidate :: rest, s =>
    if candidate.peer.id = config.selfNodeId then loadLocalTileWithSource archives met key s
    else
      let contact : Contact := ⟨candidate.peer, s.now, s.failures, met.forward n⟩
      match loadTileFromPeer config archives key (met.forward n) (afterFetch candidate.peer (met.forward n) s) with
      | (.ok (some (tile, source)), s) =>
        ⟨.ok (some tile, match source with | .cache => .peerCache | .backend => .peerBackend), [contact], s⟩
      | (.error .miss, s) => ⟨.ok (none, .peerMiss), [contact], s.cacheTileMiss key⟩
      | (.ok none, s) =>
        let routed := routeCandidates config archives met key (n + 1) rest s
        { routed with contacts := contact :: routed.contacts }
      | (.error err, s) =>
        if err.isRetryable then
          let routed := routeCandidates config archives met key (n + 1) rest s
          { routed with contacts := contact :: routed.contacts }
        else ⟨.error err, [contact], s⟩

/-- `PeerBackend::route_tile`: the candidates, and the node after the failures that are over are forgotten. -/
def routeTileCandidates (config : ResolverConfig) (met : Encounter) (key : TileCacheKey) (s : Resolver) :
    List ScoredPeer × Resolver :=
  let failures := s.failures.retained s.now
  (routeWithBackoff failures met.peers .tile fun peers =>
    config.router.routeTile config.xxHash64 peers key.tilesetId.id key.tileId,
    { s with failures := failures })

/-- `route_tile`. -/
def routeTile (config : ResolverConfig) (archives : ArchiveSet) (met : Encounter) (key : TileCacheKey) (s : Resolver) : Routed :=
  match s.tileCache key with
  | some (.found tile) => ⟨.ok (some tile, .selfTileCache), [], s⟩
  | some .notFound => ⟨.ok (none, .negativeCache), [], s⟩
  | none =>
    let (candidates, s) := routeTileCandidates config met key s
    match candidates with
    | [] => loadLocalTileWithSource archives met key s
    | candidate :: _ =>
      if candidate.peer.id = config.selfNodeId then loadLocalTileWithSource archives met key s
      else routeCandidates config archives met key 0 candidates s

/-- `load_tile_by_id_with_source`: what a node answers its peers. -/
def loadTileByIdWithSource (archives : ArchiveSet) (met : Encounter) (key : TileCacheKey) (s : Resolver) : Routed :=
  match s.tileCache key with
  | some (.found tile) => ⟨.ok (some tile, .selfTileCache), [], s⟩
  | some .notFound => ⟨.ok (none, .negativeCache), [], s⟩
  | none => loadLocalTileWithSource archives met key s

/-! ## The system -/

inductive ResolverAction where
  | routeTile (key : TileCacheKey) (met : Encounter)
  | loadTileById (key : TileCacheKey) (met : Encounter)
  | advance (d : Duration)
  /-- An entry expires or is evicted. -/
  | evict (key : TileCacheKey)
  /-- A peer has answered for another resource, or another request. -/
  | peerAnswered (peer : Peer) (resource : PeerResource) (answer : PeerAnswer)

/-- A request is one step, from the choice of its candidates to its answer: what other requests do meanwhile is left out, and so
is what their answers would do to the backoff of its peers. -/
def Resolver.step (config : ResolverConfig) (archives : ArchiveSet) (s : Resolver) : ResolverAction → Option Resolver
  | .routeTile key met => some (Storage.routeTile config archives met key s).node
  | .loadTileById key met => some (loadTileByIdWithSource archives met key s).node
  | .advance d => some { s with now := s.now + d }
  | .evict key => some { s with tileCache := Function.update s.tileCache key none }
  | .peerAnswered peer resource answer => some { s with failures := noteAnswer s.failures s.now peer resource answer }

def resolver (config : ResolverConfig) (archives : ArchiveSet) (start : Instant) : Machine Resolver ResolverAction where
  init := ⟨start, fun _ => none, []⟩
  step := Resolver.step config archives

end Biei.Storage
