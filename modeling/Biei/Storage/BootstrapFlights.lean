import Biei.Storage.Peer

/-!
# Bootstrap loads over a cluster

`load_bootstrap_with_metadata` and `load_bootstrap_local` of `reader.rs` on every node: both go through the one map of flights
that the node has. The leader of a routed load asks peers, whose internal handlers run local loads; a local load follows whatever
flight there is for its tileset. What the caches and the backend give, when a peer's answer comes and what it is, and which peers
a node sees are the environment's choice; a node that is not draining sees itself.
-/

namespace Biei.Storage

/-- `route_tileset`. -/
def HrwRouter.routeTileset (router : HrwRouter) (xxHash64 : Bytes → UInt64) (peers : List Peer) (tilesetId : String) :
    List ScoredPeer :=
  router.routeTile xxHash64 peers tilesetId 0

inductive BootstrapPhase where
  /-- At the top of the loop. -/
  | looping
  /-- The load leads, and reads which peers there are. -/
  | routing
  | asking (candidates : List ScoredPeer)
  | fetching (peer : Peer) (rest : List ScoredPeer)
  /-- The load leads, and reads from the backend. -/
  | reading
  /-- The load waits for the flight that another load leads. -/
  | following (leader : Nat)
  | done
deriving DecidableEq

/-- A load on a node: a routed one, or the local one of an internal handler, with the load whose fetch it serves. -/
structure BootstrapLoad where
  node : String
  tileset : String
  asker : Option Nat
  phase : BootstrapPhase
deriving DecidableEq

/-- How a fetch ends: with a transfer, which is decoded or not, with a body that is none, or with an error. -/
inductive BootstrapAnswer where
  | transfer
  | malformed
  | failed (error : PeerFetchError)
deriving DecidableEq

/-- All loads there were, the flights of each node by tileset with the loads that lead them, and the nodes that are draining. -/
structure BootstrapCluster where
  loads : List BootstrapLoad
  flights : String × String → Option Nat
  draining : List String

inductive BootstrapStep where
  /-- A cache has the archive, or that there is none. -/
  | cached
  | begin
  | route (peers : List Peer)
  | ask
  /-- The fetch arrives at its peer, and is not refused there. -/
  | arrive
  | answer (answer : BootstrapAnswer)
  | finish
  /-- The flight that the load followed is over, with an error or without. -/
  | wake (failed : Bool)
  | cancel
deriving DecidableEq

inductive BootstrapEvent where
  | request (node tileset : String)
  | drain (node : String)
  | move (i : Nat) (step : BootstrapStep)
deriving DecidableEq

namespace BootstrapCluster

def new : BootstrapCluster := ⟨[], fun _ => none, []⟩

def setPhase (s : BootstrapCluster) (i : Nat) (load : BootstrapLoad) (phase : BootstrapPhase) : BootstrapCluster :=
  { s with loads := s.loads.set i { load with phase := phase } }

/-- `bootstrap_inflight.begin`. -/
def begin (s : BootstrapCluster) (i : Nat) (load : BootstrapLoad) : BootstrapCluster :=
  match s.flights (load.node, load.tileset) with
  | some leader => s.setPhase i load (.following leader)
  | none =>
    { s.setPhase i load (if load.asker.isNone then .routing else .reading) with
      flights := Function.update s.flights (load.node, load.tileset) (some i) }

/-- A load that led is over, and its flight is gone. -/
def endLead (s : BootstrapCluster) (i : Nat) (load : BootstrapLoad) : BootstrapCluster :=
  { s.setPhase i load .done with flights := Function.update s.flights (load.node, load.tileset) none }

/-- The start of `route_fetch_optional_response_candidates`. -/
def startWalk (node : String) (candidates : List ScoredPeer) : BootstrapPhase :=
  match candidates with
  | [] => .reading
  | first :: _ => if first.peer.id = node then .reading else .asking candidates

/-- One turn of its loop. -/
def turn (node : String) (candidates : List ScoredPeer) : BootstrapPhase :=
  match candidates with
  | [] => .reading
  | next :: rest => if next.peer.id = node then .reading else .fetching next.peer rest

/-- What the walk makes of an answer: it ends without one, or goes on. -/
def afterFailure (rest : List ScoredPeer) (error : PeerFetchError) : BootstrapPhase :=
  if error.isRetryable then .asking rest else .reading

/-- Only a node that is draining does not see itself. -/
def visible (s : BootstrapCluster) (node : String) (peers : List Peer) : Bool :=
  s.draining.contains node || peers.any fun peer => peer.id == node

/-- What the nodes route by: the router that each has, and the hash. -/
structure Routing where
  router : String → HrwRouter
  xxHash64 : Bytes → UInt64

def Routing.candidates (routing : Routing) (node tileset : String) (peers : List Peer) : List ScoredPeer :=
  (routing.router node).routeTileset routing.xxHash64 peers tileset

variable (routing : Routing)

/-- A step of one load. -/
def loadStep (s : BootstrapCluster) (i : Nat) (load : BootstrapLoad) (step : BootstrapStep) : Option BootstrapCluster :=
  match step, load.phase with
  | .cached, .looping => some (s.setPhase i load .done)
  | .begin, .looping => some (s.begin i load)
  | .route peers, .routing =>
    if s.visible load.node peers then
      some (s.setPhase i load (startWalk load.node (routing.candidates load.node load.tileset peers)))
    else none
  | .ask, .asking candidates => some (s.setPhase i load (turn load.node candidates))
  | .arrive, .fetching peer _ =>
    -- a node that is draining refuses what is forwarded to it
    if s.draining.contains peer.id then none
    else some { s with loads := s.loads ++ [⟨peer.id, load.tileset, some i, .looping⟩] }
  | .answer .transfer, .fetching _ _ => some (s.endLead i load)
  | .answer .malformed, .fetching _ _ => some (s.setPhase i load .reading)
  | .answer (.failed error), .fetching _ rest => some (s.setPhase i load (afterFailure rest error))
  | .finish, .reading => some (s.endLead i load)
  | .wake failed, .following leader =>
    if s.flights (load.node, load.tileset) = some leader then none
    else some (s.setPhase i load (if failed then .done else .looping))
  | .cancel, .looping => some (s.setPhase i load .done)
  | .cancel, .following _ => some (s.setPhase i load .done)
  | .cancel, .routing => some (s.endLead i load)
  | .cancel, .asking _ => some (s.endLead i load)
  | .cancel, .fetching _ _ => some (s.endLead i load)
  | .cancel, .reading => some (s.endLead i load)
  | _, _ => none

def step (s : BootstrapCluster) : BootstrapEvent → Option BootstrapCluster
  | .request node tileset => some { s with loads := s.loads ++ [⟨node, tileset, none, .looping⟩] }
  | .drain node => some { s with draining := node :: s.draining }
  | .move i step => s.loads[i]?.bind fun load => s.loadStep routing i load step

def machine : Machine BootstrapCluster BootstrapEvent where
  init := new
  step := step routing

/-- The flight that load `i` leads waits for the one that load `j` leads on another node: `i` is fetching from a peer whose
handler, which serves that fetch, follows the flight of `j`. -/
def Waits (s : BootstrapCluster) (i j : Nat) : Prop :=
  ∃ load peer rest, s.loads[i]? = some load ∧ load.phase = .fetching peer rest ∧ s.flights (load.node, load.tileset) = some i ∧
    ∃ handler ∈ s.loads, handler.asker = some i ∧ handler.node = peer.id ∧ handler.phase = .following j ∧
      s.flights (handler.node, handler.tileset) = some j

end BootstrapCluster

end Biei.Storage
